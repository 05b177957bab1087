import ProcCatalog.Catalog.Document
import ProcCatalog.Proofs.Catalog.Accounting
import ProcCatalog.Proofs.Catalog.Stats

/-!
# Statistics are exact

Each number of the statistics is the number of procedures with the property it is listed under.
No procedure is left out of a table, so its numbers add up to the number of procedures, and the
numbers of two lists of procedures add up to those of both together.
-/

namespace ProcCatalog

/-- The procedure was made from a block of a script. -/
def Procedure.Analyzed (p : Procedure) : Prop :=
  ∃ (a : Analyzer) (blocks : List Script.Block), p ∈ (a.analyze blocks).procedures

/-- A member of the profile in the document is true. -/
def Procedure.shows (key : String) (p : Procedure) : Bool :=
  match (Value.obj p.profile.entries).member? key.toList with
  | some (.bool b) => b
  | _ => false

theorem Procedure.shows_label (flag : Body.Flag) (p : Procedure) :
    p.shows flag.label = p.profile.flag flag := by
  cases flag <;> rfl

theorem Procedure.Analyzed.hasNolock_eq {p : Procedure} (h : p.Analyzed) :
    p.profile.hasNolock = decide (0 < p.profile.nolockCount) := by
  obtain ⟨a, blocks, hp⟩ := h
  obtain ⟨d, hd⟩ := Analyzer.exists_classify_of_mem hp
  obtain ⟨assignment, -, hd⟩ := Outcome.bind_eq_ok.mp hd
  rw [← Except.ok.inj hd]
  rfl

namespace Stats

variable {ps qs : List Procedure} {label : Procedure → Text} {labels : List Text} {tally : Tally}

abbrev ofProcedures (ps : List Procedure) : Stats := ofFacts (ps.map (·.fact))

/-! ## Tables -/

/-- A table has a row for each of some labels, with the number of procedures of the label, and no
procedure is left out. -/
structure Counts (label : Procedure → Text) (labels : List Text) (ps : List Procedure)
    (tally : Tally) : Prop where
  keys : tally.map (·.1) = labels
  counted : ∀ l ∈ labels, tally.lookup l = some (ps.countP fun p => label p == l)
  covers : ∀ p ∈ ps, label p ∈ labels
  sum_eq : (tally.map (·.2)).sum = ps.length

private theorem counts_numbered (hnodup : labels.Nodup) (hcovers : ∀ p ∈ ps, label p ∈ labels) :
    Counts label labels ps (numbered labels fun l => (ps.map label).count l) where
  keys := map_fst_numbered labels _
  counted l hl := by
    rw [lookup_numbered, if_pos hl, List.count, List.countP_map]
    rfl
  covers := hcovers
  sum_eq := by
    rw [sum_numbered hnodup (List.forall_mem_map.mpr hcovers), List.length_map]

theorem Counts.getD_lookup (h : Counts label labels ps tally) (l : Text) :
    (tally.lookup l).getD 0 = ps.countP fun p => label p == l := by
  by_cases hl : l ∈ labels
  · rw [h.counted l hl, Option.getD_some]
  · have hnone : tally.lookup l = none := lookup_eq_none_iff_not_mem.mpr (h.keys ▸ hl)
    rw [hnone, Option.getD_none, eq_comm, List.countP_eq_zero]
    exact fun p hp heq => hl (eq_of_beq heq ▸ h.covers p hp)

/-- The value of each key in the one table is the sum of those in two others, where a key that is
missing counts as zero. -/
def Adds {α : Type} [Zero α] [Add α] (t t' both : List (Text × α)) : Prop :=
  ∀ l, (both.lookup l).getD 0 = (t.lookup l).getD 0 + (t'.lookup l).getD 0

theorem Counts.adds {labels' labels'' : List Text} {tally' both : Tally}
    (h : Counts label labels ps tally) (h' : Counts label labels' qs tally')
    (hboth : Counts label labels'' (ps ++ qs) both) : Adds tally tally' both := by
  intro l
  rw [h.getD_lookup, h'.getD_lookup, hboth.getD_lookup, List.countP_append]

def intentLabels : List Text :=
  ["get", "insert", "update", "delete", "report", "mixed"].map String.toList

def tierLabels : List Text :=
  ["trivial", "simple", "moderate", "complex", "very-complex"].map String.toList

theorem counts_byIntent (ps : List Procedure) :
    Counts (·.intent.label.toList) intentLabels ps (ofProcedures ps).byIntent := by
  rw [byIntent_ofFacts]
  refine counts_numbered (by decide) fun p _ => ?_
  cases p.intent <;> decide

theorem counts_byTier (ps : List Procedure) :
    Counts (·.tier.label.toList) tierLabels ps (ofProcedures ps).byTier := by
  rw [byTier_ofFacts]
  refine counts_numbered (by decide) fun p _ => ?_
  cases p.tier <;> decide

theorem counts_bySchema (ps : List Procedure) :
    Counts (·.schema) (Text.sortedSet (ps.map (·.schema))) ps (ofProcedures ps).bySchema := by
  rw [bySchema_ofFacts]
  refine counts_numbered ((Text.ascending_sortedSet _).imp fun h => h.2) fun p hp => ?_
  exact Text.mem_sortedSet.mpr (List.mem_map_of_mem hp)

/-! ## Flags -/

def flagNames : List String :=
  ["hasCursor", "hasSelectStar", "hasDynamicSql", "hasNolock", "missingSetNocountOn",
    "hasTableVariable", "hasTempTable", "hasWhileLoop", "hasNoTryCatch"]

/-- The number of procedures with each flag, and the number of hints in all of them. -/
structure CountsFlags (ps : List Procedure) (counts : List (Text × Int)) : Prop where
  keys : counts.map (·.1) = (flagNames ++ ["nolockOccurrences"]).map String.toList
  flags : ∀ name ∈ flagNames,
    counts.lookup name.toList = some ((ps.countP (·.shows name) : Nat) : Int)
  occurrences : counts.lookup "nolockOccurrences".toList =
    some (((ps.map (·.profile.nolockCount)).sum : Nat) : Int)

private theorem nolockOccurrences_eq (ps : List Procedure) :
    (ofProcedures ps).nolockOccurrences = ((ps.map (·.profile.nolockCount)).sum : Nat) := by
  have hfold (n : Int) : (ps.map (·.fact)).foldl (fun n f => n + f.nolockCount) n =
      n + ((ps.map (·.profile.nolockCount)).sum : Nat) := by
    induction ps generalizing n with
    | nil => simp
    | cons p ps ih =>
        rw [List.map_cons, List.foldl_cons, ih, List.map_cons, List.sum_cons, Procedure.fact]
        push_cast
        omega
  exact (hfold 0).trans (Int.zero_add _)

theorem countsFlags_ofProcedures (ps : List Procedure) :
    CountsFlags ps (ofProcedures ps).flagCounts where
  keys := rfl
  flags name hname := by
    obtain ⟨flag, -, rfl⟩ : ∃ flag ∈ Body.Flag.all, flag.label = name := List.mem_map.mp hname
    have hcount : (ps.map (·.fact)).countP (fun f => f.profile.flag flag) =
        ps.countP (·.shows flag.label) := by
      rw [List.countP_map]
      exact List.countP_congr fun p _ => by rw [p.shows_label]; rfl
    rw [← hcount]
    cases flag <;> rfl
  occurrences := by
    rw [← nolockOccurrences_eq]
    rfl

theorem CountsFlags.adds {counts counts' both : List (Text × Int)} (h : CountsFlags ps counts)
    (h' : CountsFlags qs counts') (hboth : CountsFlags (ps ++ qs) both) :
    Adds counts counts' both := by
  intro l
  by_cases hl : l ∈ (flagNames ++ ["nolockOccurrences"]).map String.toList
  · obtain ⟨name, hname, rfl⟩ := List.mem_map.mp hl
    rcases List.mem_append.mp hname with hname | hname
    · rw [h.flags name hname, h'.flags name hname, hboth.flags name hname, List.countP_append]
      exact Int.natCast_add _ _
    · obtain rfl := List.mem_singleton.mp hname
      rw [h.occurrences, h'.occurrences, hboth.occurrences, List.map_append, List.sum_append]
      exact Int.natCast_add _ _
  · have hnone {counts : List (Text × Int)}
        (hkeys : counts.map (·.1) = (flagNames ++ ["nolockOccurrences"]).map String.toList) :
        counts.lookup l = none := lookup_eq_none_iff_not_mem.mpr (hkeys ▸ hl)
    rw [hnone h.keys, hnone h'.keys, hnone hboth.keys]
    rfl

theorem countP_hasNolock_le (hps : ∀ p ∈ ps, p.Analyzed) :
    ps.countP (·.shows "hasNolock") ≤ (ps.map (·.profile.nolockCount)).sum := by
  induction ps with
  | nil => exact Nat.zero_le _
  | cons p ps ih =>
      obtain ⟨hp, hps⟩ := List.forall_mem_cons.mp hps
      have hone : (if p.shows "hasNolock" then 1 else 0) ≤ p.profile.nolockCount := by
        have hshows : p.shows "hasNolock" = decide (0 < p.profile.nolockCount) :=
          (p.shows_label .nolock).trans hp.hasNolock_eq
        rw [hshows]
        split
        · exact of_decide_eq_true ‹_›
        · exact Nat.zero_le _
      rw [List.countP_cons, List.map_cons, List.sum_cons]
      have hrest := ih hps
      omega

/-! ## Statistics -/

/-- All the numbers of statistics are as they should be. -/
structure Exact (ps : List Procedure) (s : Stats) : Prop where
  intents : Counts (·.intent.label.toList) intentLabels ps s.byIntent
  tiers : Counts (·.tier.label.toList) tierLabels ps s.byTier
  schemas : ∃ labels, Text.Ascending labels ∧ (∀ l, l ∈ labels ↔ ∃ p ∈ ps, p.schema = l) ∧
    Counts (·.schema) labels ps s.bySchema
  flags : CountsFlags ps s.flagCounts
  hasNolock_le : ∀ m n, s.flagCounts.lookup "hasNolock".toList = some m →
    s.flagCounts.lookup "nolockOccurrences".toList = some n → m ≤ n

/-- Each value of some statistics is the sum of those in two others. -/
structure Sums (s s' both : Stats) : Prop where
  intents : Adds s.byIntent s'.byIntent both.byIntent
  tiers : Adds s.byTier s'.byTier both.byTier
  schemas : Adds s.bySchema s'.bySchema both.bySchema
  flags : Adds s.flagCounts s'.flagCounts both.flagCounts

theorem sums_append (ps qs : List Procedure) :
    Sums (ofProcedures ps) (ofProcedures qs) (ofProcedures (ps ++ qs)) where
  intents := (counts_byIntent ps).adds (counts_byIntent qs) (counts_byIntent _)
  tiers := (counts_byTier ps).adds (counts_byTier qs) (counts_byTier _)
  schemas := (counts_bySchema ps).adds (counts_bySchema qs) (counts_bySchema _)
  flags := (countsFlags_ofProcedures ps).adds (countsFlags_ofProcedures qs)
    (countsFlags_ofProcedures _)

/-- The statistics of procedures that were analyzed count each of them once in every table, and
those of two lists of procedures together are their sums. -/
theorem exact_and_sums (hps : ∀ p ∈ ps, p.Analyzed) :
    Exact ps (ofProcedures ps) ∧
      ∀ qs, Sums (ofProcedures ps) (ofProcedures qs) (ofProcedures (ps ++ qs)) := by
  have hflags := countsFlags_ofProcedures ps
  refine ⟨⟨counts_byIntent ps, counts_byTier ps, ?_, hflags, ?_⟩, sums_append ps⟩
  · refine ⟨_, Text.ascending_sortedSet _, fun l => ?_, counts_bySchema ps⟩
    rw [Text.mem_sortedSet, List.mem_map]
  · intro m n hm hn
    have hm := hm.symm.trans (hflags.flags "hasNolock" (by decide))
    have hn := hn.symm.trans hflags.occurrences
    rw [Option.some.inj hm, Option.some.inj hn]
    exact Int.ofNat_le.mpr (countP_hasNolock_le hps)

/-- The procedures of a script with two of one schema, the first of which has a hint. -/
def twoProcedures : List Procedure :=
  (Analyzer.analyze {}
    [⟨"CREATE PROCEDURE dbo.GetA AS SELECT * FROM T WITH (NOLOCK)".toList, 0, 1⟩,
      ⟨"CREATE PROCEDURE dbo.GetB AS SELECT 1".toList, 1, 2⟩]).procedures

theorem exact_and_sums_of_two :
    twoProcedures.map (fun p => (p.name, p.profile.nolockCount)) =
        [("GetA".toList, 1), ("GetB".toList, 0)] ∧
      (∀ p ∈ twoProcedures, p.Analyzed) ∧ Exact twoProcedures (ofProcedures twoProcedures) ∧
        ∀ qs, Sums (ofProcedures twoProcedures) (ofProcedures qs)
          (ofProcedures (twoProcedures ++ qs)) := by
  have hps : ∀ p ∈ twoProcedures, p.Analyzed := fun p hp => ⟨{}, _, hp⟩
  exact ⟨by decide +kernel, hps, exact_and_sums hps⟩

end Stats

end ProcCatalog
