import ProcCatalog.Proofs.CallGraph.Cycles
import ProcCatalog.Proofs.CallGraph.Summaries

/-!
# Calls to others only

If no procedure lists a call to its own name, no node of the graph calls itself, also where several
procedures share a name. Then all who call a procedure are among those from whom calls lead to it,
and no cycle is left out of the report for want of a second node.
-/

namespace ProcCatalog

theorem mem_of_mem_upTo {α : Type} {limit : Int} {x : α} {xs : List α} (h : x ∈ upTo limit xs) :
    x ∈ xs := by
  rw [upTo] at h
  split at h
  · exact List.mem_of_mem_take h
  · exact List.mem_of_mem_take h

namespace CallGraph

open Relation

variable {routines : List Routine} {ranked : List Hotspot} {h : Hotspot}

def CallsOthers (routines : List Routine) : Prop :=
  ∀ r ∈ routines, ∀ call ∈ r.calls, Text.lower call ≠ Text.lower r.name

theorem CallsOthers.not_calls_self (hothers : CallsOthers routines) (u : Text) :
    ¬ Calls routines u u := by
  rintro ⟨⟨r, hr, rfl, call, hcall, hself⟩, -⟩
  exact hothers r hr call hcall hself

/-! ## Hotspots -/

namespace Ranking

theorem exists_caller (hranked : Ranking routines ranked) (hh : h ∈ ranked) :
    ∃ u, Calls routines u (Text.lower h.name) :=
  (hranked.mem _).mp (List.mem_map_of_mem hh)

theorem one_le_callers (hranked : Ranking routines ranked) (hh : h ∈ ranked) : 1 ≤ h.callers := by
  have hone : 1 ≤ {u | Calls routines u (Text.lower h.name)}.encard :=
    Set.one_le_encard_iff_nonempty.mpr (hranked.exists_caller hh)
  rw [hranked.callers h hh] at hone
  exact_mod_cast hone

/-- A caller is another procedure, so it is among those from whom calls lead here. -/
theorem callers_le_transitiveCallers (hranked : Ranking routines ranked)
    (hothers : CallsOthers routines) (hh : h ∈ ranked) : h.callers ≤ h.transitiveCallers := by
  have hsubset : {u | Calls routines u (Text.lower h.name)} ⊆
      {u | u ≠ Text.lower h.name ∧ TransGen (Calls routines) u (Text.lower h.name)} := by
    intro u hu
    refine ⟨?_, .single hu⟩
    rintro rfl
    exact hothers.not_calls_self _ hu
  have hle := Set.encard_le_encard hsubset
  rw [hranked.callers h hh, hranked.transitiveCallers h hh] at hle
  exact_mod_cast hle

theorem transitiveCallers_lt (hranked : Ranking routines ranked) (hh : h ∈ ranked) :
    h.transitiveCallers < (distinct (routines.map fun r => Text.lower r.name)).length := by
  let others := {u | u ≠ Text.lower h.name ∧ TransGen (Calls routines) u (Text.lower h.name)}
  obtain ⟨caller, hcaller⟩ := hranked.exists_caller hh
  have hsubset : insert (Text.lower h.name) others ⊆ {v | Named routines v} := by
    rintro u (rfl | ⟨-, hpath⟩)
    · exact hcaller.named_right
    · obtain ⟨v, hv, -⟩ := TransGen.head'_iff.mp hpath
      exact hv.named_left
  have hnames : {v | Named routines v}.encard =
      (distinct (routines.map fun r => Text.lower r.name)).length :=
    encard_eq_length (nodup_distinct _) fun v => by simp [Named]
  have hnew : Text.lower h.name ∉ others := fun hmem => hmem.1 rfl
  have hle := Set.encard_le_encard hsubset
  rw [Set.encard_insert_of_notMem hnew, hranked.transitiveCallers h hh, hnames] at hle
  exact_mod_cast hle

end Ranking

/-! ## Summaries -/

/-- What a summary tells about procedures that call none but others. -/
structure Loopless (routines : List Routine) (s : Summary) : Prop where
  edges : ∀ u, (u, u) ∉ (ofRoutines routines).edges
  called : ∀ h ∈ s.hotspots, 1 ≤ h.callers
  direct : ∀ h ∈ s.hotspots, h.callers ≤ h.transitiveCallers
  /-- There are more names than procedures from whom calls lead to one of them. -/
  others : ∀ h ∈ s.hotspots,
    h.transitiveCallers < (distinct (routines.map fun r => Text.lower r.name)).length
  finite : (elementaryCycles (Calls routines)).Finite
  cycles : s.cycles.length = min 100 (elementaryCycles (Calls routines)).ncard

theorem selfLoops_eq_empty (hothers : CallsOthers routines) :
    selfLoops (Calls routines) = ∅ := by
  refine Set.eq_empty_of_forall_notMem fun c hc => ?_
  obtain ⟨⟨u, v⟩, he, -⟩ := List.mem_map.mp (mem_loopCycles.mpr hc)
  obtain ⟨he, huv⟩ := List.mem_filter.mp he
  obtain rfl : u = v := by simpa using huv
  exact hothers.not_calls_self u (mem_edges.mp he)

theorem loopless_summary (hothers : CallsOthers routines) (limit : Int) :
    Loopless routines ((ofRoutines routines).summary limit) := by
  have hranked := ranking_ofRoutines routines
  have hmem {h : Hotspot} (hh : h ∈ ((ofRoutines routines).summary limit).hotspots) :
      h ∈ (ofRoutines routines).ranking :=
    mem_of_mem_upTo hh
  constructor
  · intro u hu
    exact hothers.not_calls_self u (mem_edges.mp hu)
  · exact fun h hh => hranked.one_le_callers (hmem hh)
  · exact fun h hh => hranked.callers_le_transitiveCallers hothers (hmem hh)
  · exact fun h hh => hranked.transitiveCallers_lt (hmem hh)
  · exact (ncard_elementaryCycles routines).1
  · have hlength := length_cycles routines
    rw [selfLoops_eq_empty hothers, Set.ncard_empty, Nat.min_zero, Nat.sub_zero] at hlength
    exact hlength

end CallGraph

end ProcCatalog
