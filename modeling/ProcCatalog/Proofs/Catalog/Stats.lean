import ProcCatalog.Catalog.Stats
import ProcCatalog.Proofs.Counting

/-!
# Statistics count procedures

A tally says of each of its labels how often it was counted, and has each label once. Counting does
not depend on the order in which procedures come, and neither do the statistics.
-/

namespace ProcCatalog

/-! ## Tallies -/

namespace Tally

variable {labels counted counted' : List Text}

theorem count_eq_countInto (label : Text) (tally : Tally) :
    tally.count label = countInto label tally := by
  induction tally with
  | nil => rfl
  | cons entry tally ih => rw [count, countInto, ih]

theorem countAll_eq_foldl (tally : Tally) (counted : List Text) :
    tally.countAll counted = counted.foldl (fun t label => countInto label t) tally := by
  rw [countAll]
  exact congrArg (fun step => counted.foldl step tally)
    (funext fun t => funext fun label => count_eq_countInto label t)

theorem countAll_nil (counted : List Text) :
    countAll [] counted = numbered (distinct counted) fun l => counted.count l := by
  rw [countAll_eq_foldl, foldl_countInto_nil]

theorem byLabel_countAll_eq (h : counted.Perm counted') :
    (countAll [] counted).byLabel = (countAll [] counted').byLabel := by
  have hperm : (countAll [] counted).Perm (countAll [] counted') := by
    rw [countAll_nil, countAll_nil, funext h.count_eq]
    refine List.Perm.map _ ((List.perm_ext_iff_of_nodup (nodup_distinct _) (nodup_distinct _)).mpr
      fun l => ?_)
    rw [mem_distinct, mem_distinct, h.mem_iff]
  refine sortBy_eq_of_perm (Text.ranks_le.comap Prod.fst) hperm fun a ha b hb hab hba => ?_
  rw [countAll_nil] at ha hb
  obtain ⟨l, -, rfl⟩ := List.mem_map.mp ha
  obtain ⟨k, -, rfl⟩ := List.mem_map.mp hb
  have hlk : l = k := Text.le_antisymm hab hba
  rw [hlk]

end Tally

/-! ## Statistics -/

namespace Stats

variable {ps qs : List Procedure}

private theorem zeros_intents : Tally.zeros (Body.Intent.all.map (·.label)) =
    numbered (Body.Intent.all.map fun i => i.label.toList) fun _ => 0 := rfl

private theorem zeros_tiers : Tally.zeros (Body.Tier.all.map (·.label)) =
    numbered (Body.Tier.all.map fun t => t.label.toList) fun _ => 0 := rfl

theorem byIntent_ofFacts (ps : List Procedure) :
    (ofFacts (ps.map (·.fact))).byIntent =
      numbered (Body.Intent.all.map fun i => i.label.toList) fun l =>
        (ps.map fun p => p.intent.label.toList).count l := by
  change Tally.countAll _ _ = _
  rw [zeros_intents, Tally.countAll_eq_foldl, foldl_countInto_of_subset (by decide),
    List.map_map]
  · rfl
  · refine List.forall_mem_map.mpr (List.forall_mem_map.mpr fun p _ => ?_)
    refine List.mem_map.mpr ⟨p.intent, ?_, rfl⟩
    cases p.intent <;> decide

theorem byTier_ofFacts (ps : List Procedure) :
    (ofFacts (ps.map (·.fact))).byTier =
      numbered (Body.Tier.all.map fun t => t.label.toList) fun l =>
        (ps.map fun p => p.tier.label.toList).count l := by
  change Tally.countAll _ _ = _
  rw [zeros_tiers, Tally.countAll_eq_foldl, foldl_countInto_of_subset (by decide), List.map_map]
  · rfl
  · refine List.forall_mem_map.mpr (List.forall_mem_map.mpr fun p _ => ?_)
    refine List.mem_map.mpr ⟨p.tier, ?_, rfl⟩
    cases p.tier <;> decide

theorem bySchema_ofFacts (ps : List Procedure) :
    (ofFacts (ps.map (·.fact))).bySchema =
      numbered (Text.sortedSet (ps.map (·.schema))) fun l => (ps.map (·.schema)).count l := by
  have hschemas : (ps.map (·.fact)).map (·.schema) = ps.map (·.schema) := by
    rw [List.map_map]
    rfl
  change Tally.byLabel (Tally.countAll _ _) = _
  rw [hschemas, Tally.countAll_nil]
  exact sortBy_map (fun _ _ => rfl) _

theorem ofFacts_eq_of_perm (h : ps.Perm qs) :
    ofFacts (ps.map (·.fact)) = ofFacts (qs.map (·.fact)) := by
  have hfacts := h.map (·.fact)
  have hintents : (ofFacts (ps.map (·.fact))).byIntent = (ofFacts (qs.map (·.fact))).byIntent := by
    rw [byIntent_ofFacts, byIntent_ofFacts, funext (h.map _).count_eq]
  have htiers : (ofFacts (ps.map (·.fact))).byTier = (ofFacts (qs.map (·.fact))).byTier := by
    rw [byTier_ofFacts, byTier_ofFacts, funext (h.map _).count_eq]
  have hschemas : (ofFacts (ps.map (·.fact))).bySchema = (ofFacts (qs.map (·.fact))).bySchema :=
    Tally.byLabel_countAll_eq (hfacts.map _)
  have hflags : (ofFacts (ps.map (·.fact))).byFlag = (ofFacts (qs.map (·.fact))).byFlag := by
    simp only [ofFacts, hfacts.countP_eq]
  have hnolock : (ofFacts (ps.map (·.fact))).nolockOccurrences =
      (ofFacts (qs.map (·.fact))).nolockOccurrences :=
    hfacts.foldl_eq' (fun f _ g _ n => by omega) 0
  generalize ofFacts (ps.map (·.fact)) = s at *
  generalize ofFacts (qs.map (·.fact)) = t at *
  cases s
  cases t
  rw [Stats.mk.injEq]
  exact ⟨hschemas, hintents, htiers, hflags, hnolock⟩

end Stats

end ProcCatalog
