import ProcCatalog.Proofs.CallGraph.Reordered
import ProcCatalog.Proofs.Catalog.Building
import ProcCatalog.Proofs.Catalog.Stats

/-!
# Catalogs of reordered procedures

If no two procedures have one name, a catalog does not depend on the order in which a script defines
them: the modules are those of the codes that come up, each sorts its procedures by a key that no
two of them share, and the statistics and the summary of the calls are those of all procedures.
-/

namespace ProcCatalog.Catalog

open CallGraph (Reordered)

variable {setting setting' : Setting} {analysis analysis' : Analysis} {rules : Assign.Rules}
  {reference : Collaborator.CrossReference} {ps qs : List Procedure}

/-! ## Procedures -/

private theorem reordered_routines (hperm : ps.Perm qs)
    (hnames : (ps.map fun p => Text.lower p.name).Nodup) :
    Reordered (ps.map routine) (qs.map routine) where
  perm := hperm.map routine
  distinct := by
    rw [List.map_map]
    exact hnames

private theorem withCallers_perm (reference : Collaborator.CrossReference) (hperm : ps.Perm qs)
    (hnames : (ps.map fun p => Text.lower p.name).Nodup) :
    (withCallers reference ps).Perm (withCallers reference qs) := by
  have hcalled : called reference (graphOf ps) = called reference (graphOf qs) := by
    funext p
    rw [called, called, graphOf, graphOf, (reordered_routines hperm hnames).callersOf_eq]
  rw [withCallers, withCallers, hcalled]
  exact hperm.map _

/-! ## Modules -/

/-- The key of a procedure in its module tells its name. -/
private theorem name_eq_of_listedBefore {p q : Procedure} (hpq : p.listedBefore q = true)
    (hqp : q.listedBefore p = true) : p.name = q.name := by
  have hkey : p.sortKey = q.sortKey := lexLe_antisymm (fun _ _ => Text.le_antisymm) hpq hqp
  simp only [Procedure.sortKey, List.cons.injEq] at hkey
  exact hkey.2.1

private theorem listingWith_eq (hperm : ps.Perm qs)
    (hnames : (ps.map fun p => Text.lower p.name).Nodup) (s : RawText) :
    listingWith rules ps s = listingWith rules qs s := by
  have hsorted : sortBy Procedure.listedBefore
        (ps.filter fun p => (Value.str s).sameKey p.moduleCode) =
      sortBy Procedure.listedBefore (qs.filter fun p => (Value.str s).sameKey p.moduleCode) := by
    refine sortBy_eq_of_perm (Text.ranks_le.lexLe.comap Procedure.sortKey) (hperm.filter _) ?_
    intro p hp q hq hpq hqp
    have hname := congrArg Text.lower (name_eq_of_listedBefore hpq hqp)
    exact List.inj_on_of_nodup_map hnames (List.mem_of_mem_filter hp) (List.mem_of_mem_filter hq)
      hname
  rw [listingWith, listingWith, hsorted]

private theorem listingsOf_eq (hperm : ps.Perm qs)
    (hnames : (ps.map fun p => Text.lower p.name).Nodup) (hstrings : HasStringCodes ps) :
    listingsOf rules ps = listingsOf rules qs := by
  have hstrings' : HasStringCodes qs := fun p hp => hstrings p (hperm.mem_iff.mpr hp)
  obtain ⟨codes, hcodes, hlistings⟩ := listingsOf_eq_ok rules hstrings
  obtain ⟨codes', hcodes', hlistings'⟩ := listingsOf_eq_ok rules hstrings'
  rw [hlistings, hlistings', hcodes.eq_of_mem_iff hcodes' fun p => hperm.mem_iff]
  exact congrArg Except.ok (List.map_congr_left fun s _ => listingWith_eq hperm hnames s)

/-! ## Catalogs -/

/-- What two catalogs of the same procedures have in common. -/
structure Matches (ps : List Procedure) (c d : Catalog) : Prop where
  /-- The modules are the same in the same order, each with the same procedures in the same order.
  Codes other than strings may share a key and still differ, as `1` and `true` do. -/
  listings : HasStringCodes ps → c.listings = d.listings
  stats : c.stats = d.stats
  callGraph : Option.Rel (CallGraph.Matches (ps.map routine)) c.callGraph d.callGraph

/-- The order of procedures decides nothing but the order among unresolved calls that differ only in
case, and which cycles are left out where there are too many. -/
theorem matches_of_perm (hperm : analysis.procedures.Perm analysis'.procedures)
    (hnames : (analysis.procedures.map fun p => Text.lower p.name).Nodup)
    (hrules : setting.rules = setting'.rules)
    (hreference : setting.crossReference = setting'.crossReference)
    (hlimit : setting.hotspotLimit = setting'.hotspotLimit) :
    ((∃ c, build setting analysis = .ok c) ↔ ∃ d, build setting' analysis' = .ok d) ∧
      ∀ c d, build setting analysis = .ok c → build setting' analysis' = .ok d →
        Matches analysis.procedures c d := by
  constructor
  · have hsortable : SortableCodes analysis.procedures ↔ SortableCodes analysis'.procedures :=
      ⟨fun h => h.mono fun p hp => ⟨p, hperm.mem_iff.mpr hp, rfl⟩,
        fun h => h.mono fun p hp => ⟨p, hperm.mem_iff.mp hp, rfl⟩⟩
    rw [exists_build_iff, exists_build_iff, hsortable, hreference]
    simp only [HasLabels, hperm.mem_iff]
  · intro c d hc hd
    obtain ⟨-, listings, hlistings, rfl⟩ := build_eq_ok.mp hc
    obtain ⟨-, listings', hlistings', rfl⟩ := build_eq_ok.mp hd
    refine ⟨fun hstrings => ?_, ?_, ?_⟩
    · have hcallers := withCallers_perm setting'.crossReference hperm hnames
      have hnames' : ((withCallers setting'.crossReference analysis.procedures).map
          fun p => Text.lower p.name).Nodup := by
        rw [withCallers, List.map_map]
        exact hnames
      rw [hrules, hreference, listingsOf_eq hcallers hnames'
        ((hasStringCodes_withCallers _).mpr hstrings), hlistings'] at hlistings
      exact (Except.ok.inj hlistings).symm
    · exact congrArg some (Stats.ofFacts_eq_of_perm hperm)
    · rw [hlimit]
      exact .some ((reordered_routines hperm hnames).matches_summary _)

/-- Two procedures that call each other, and one name outside the script in two spellings. -/
theorem matches_of_swapped :
    ∃ p q : Procedure, ∃ c d : Catalog,
      p = { schema := "a".toList, name := "P".toList, calls := ["q".toList, "R".toList],
            moduleCode := .text "B".toList } ∧
      q = { schema := "a".toList, name := "Q".toList, calls := ["p".toList, "r".toList],
            moduleCode := .text "A".toList } ∧
      build {} ⟨[p, q], 0, 2, []⟩ = .ok c ∧ build {} ⟨[q, p], 0, 2, []⟩ = .ok d ∧
      Matches [p, q] c d ∧ c.listings = d.listings ∧
      (c.procedures.map (·.name)) = ["Q".toList, "P".toList] ∧
      (c.callGraph.map fun s => (s.cycles, s.unresolvedCalls)) =
        some ([["P".toList, "Q".toList]], ["R".toList, "r".toList]) ∧
      (d.callGraph.map fun s => (s.cycles, s.unresolvedCalls)) =
        some ([["P".toList, "Q".toList]], ["r".toList, "R".toList]) := by
  let p : Procedure :=
    { schema := "a".toList, name := "P".toList, calls := ["q".toList, "R".toList],
      moduleCode := .text "B".toList }
  let q : Procedure :=
    { schema := "a".toList, name := "Q".toList, calls := ["p".toList, "r".toList],
      moduleCode := .text "A".toList }
  have hstrings : HasStringCodes [p, q] := by
    rw [HasStringCodes]
    decide
  have hlabels : HasLabels [] [p, q] := fun _ _ => ⟨[], rfl⟩
  obtain ⟨hsome, hmatches⟩ := @matches_of_perm {} {} ⟨[p, q], 0, 2, []⟩
    ⟨[q, p], 0, 2, []⟩ (.swap q p []) (by decide +kernel) rfl rfl rfl
  obtain ⟨c, hc⟩ : ∃ c, build {} ⟨[p, q], 0, 2, []⟩ = .ok c :=
    exists_build_iff.mpr ⟨hlabels, hstrings.sortable⟩
  obtain ⟨d, hd⟩ := hsome.mp ⟨c, hc⟩
  have hreadC : ((build {} ⟨[p, q], 0, 2, []⟩).toOption.map fun c => (c.procedures.map (·.name),
      c.callGraph.map fun s => (s.cycles, s.unresolvedCalls))) =
        some (["Q".toList, "P".toList],
          some ([["P".toList, "Q".toList]], ["R".toList, "r".toList])) := by decide +kernel
  have hreadD : ((build {} ⟨[q, p], 0, 2, []⟩).toOption.map fun c =>
      c.callGraph.map fun s => (s.cycles, s.unresolvedCalls)) =
        some (some ([["P".toList, "Q".toList]], ["r".toList, "R".toList])) := by decide +kernel
  rw [hc] at hreadC
  rw [hd] at hreadD
  obtain ⟨hnames, hcalls⟩ := Prod.mk.inj (Option.some.inj hreadC)
  exact ⟨p, q, c, d, rfl, rfl, hc, hd, hmatches c d hc hd, (hmatches c d hc hd).listings hstrings,
    hnames, hcalls, Option.some.inj hreadD⟩

end ProcCatalog.Catalog
