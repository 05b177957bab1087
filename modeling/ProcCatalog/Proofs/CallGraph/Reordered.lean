import ProcCatalog.Proofs.CallGraph.Cycles
import ProcCatalog.Proofs.CallGraph.Summaries

/-!
# Procedures in another order

If no two procedures have one name, their order decides nothing about their calls: the last
procedure of a name is the only one. What a summary shows is sorted by keys that no two of its
entries share, so it is the same; only unresolved calls that differ in case may change places.
-/

namespace ProcCatalog.CallGraph

variable {routines routines' : List Routine} {key v : Text}

/-- The same procedures in some order, no two of them with one name. -/
structure Reordered (routines routines' : List Routine) : Prop where
  perm : routines.Perm routines'
  distinct : (routines.map fun r => Text.lower r.name).Nodup

namespace Reordered

variable (h : Reordered routines routines')
include h

/-! ## What the procedures tell -/

theorem symm : Reordered routines' routines :=
  ⟨h.perm.symm, (h.perm.map _).nodup_iff.mp h.distinct⟩

theorem named_iff : Named routines key ↔ Named routines' key := by
  simp only [Named, h.perm.mem_iff]

theorem calls_eq : Calls routines = Calls routines' := by
  funext u v
  simp only [Calls, Named, h.perm.mem_iff]

theorem filter_eq (key : Text) :
    routines.filter (fun r => Text.lower r.name == key) =
      routines'.filter fun r => Text.lower r.name == key := by
  have hone : (routines.filter fun r => Text.lower r.name == key).length ≤ 1 := by
    have hcount := List.nodup_iff_count_le_one.mp h.distinct key
    rwa [List.count, List.countP_map, List.countP_eq_length_filter] at hcount
  -- A list of one element is its only permutation.
  have hperm := h.perm.filter fun r => Text.lower r.name == key
  revert hone hperm
  generalize routines.filter (fun r => Text.lower r.name == key) = rs
  generalize routines'.filter (fun r => Text.lower r.name == key) = rs'
  intro hone hperm
  match rs, hone with
  | [], _ => exact (List.nil_perm.mp hperm).symm
  | [r], _ => exact List.singleton_perm.mp hperm

theorem lastSpelling_eq : lastSpelling routines = lastSpelling routines' :=
  funext fun key => by rw [lastSpelling, lastSpelling, h.filter_eq]

/-! ## What the graph shows -/

theorem edges_perm : (ofRoutines routines).edges.Perm (ofRoutines routines').edges := by
  refine (List.perm_ext_iff_of_nodup (nodup_edges _) (nodup_edges _)).mpr fun ⟨u, v⟩ => ?_
  rw [mem_edges, mem_edges, h.calls_eq]

theorem unresolved_perm :
    (ofRoutines routines).unresolved.Perm (ofRoutines routines').unresolved := by
  refine (List.perm_ext_iff_of_nodup (nodup_unresolved _) (nodup_unresolved _)).mpr fun call => ?_
  simp only [mem_unresolved, h.named_iff, h.perm.mem_iff]

theorem eq_of_listsCallers {names names' : List Text} (hnames : ListsCallers routines v names)
    (hnames' : ListsCallers routines' v names') : names = names' := by
  refine eq_of_mem_iff (fun a b hab hba => ?_) hnames.ascending hnames'.ascending fun name => ?_
  · exact hab.2 (Text.le_antisymm hab.1 hba.1)
  · rw [hnames.mem_iff, hnames'.mem_iff, h.calls_eq, h.lastSpelling_eq]

theorem callersOf_eq (name : Text) :
    (ofRoutines routines).callersOf name = (ofRoutines routines').callersOf name :=
  h.eq_of_listsCallers (listsCallers_callersOf _ _) (listsCallers_callersOf _ _)

private theorem mem_of_ranking {ranked ranked' : List Hotspot} (hranked : Ranking routines ranked)
    (hranked' : Ranking routines' ranked') {spot : Hotspot} (hspot : spot ∈ ranked) :
    spot ∈ ranked' := by
  have hcalled := (hranked.mem _).mp (List.mem_map_of_mem hspot)
  rw [h.calls_eq] at hcalled
  obtain ⟨spot', hspot', hlower⟩ := List.mem_map.mp ((hranked'.mem _).mpr hcalled)
  have heq : spot = spot' := by
    obtain ⟨r, hname, hschema, hlast⟩ := hranked.shown spot hspot
    obtain ⟨r', hname', hschema', hlast'⟩ := hranked'.shown spot' hspot'
    have hcallers := hranked.callers spot hspot
    have hcallers' := hranked'.callers spot' hspot'
    have htransitive := hranked.transitiveCallers spot hspot
    have htransitive' := hranked'.transitiveCallers spot' hspot'
    rw [hlower, ← h.filter_eq, hlast, Option.some.injEq] at hlast'
    rw [hlower, ← h.calls_eq, hcallers, ENat.natCast_inj] at hcallers'
    rw [hlower, ← h.calls_eq, htransitive, ENat.natCast_inj] at htransitive'
    rw [← hlast'] at hname' hschema'
    cases spot
    cases spot'
    rw [Hotspot.mk.injEq]
    exact ⟨hname.trans hname'.symm, hschema.trans hschema'.symm, hcallers', htransitive'⟩
  exact heq ▸ hspot'

theorem eq_of_ranking {ranked ranked' : List Hotspot} (hranked : Ranking routines ranked)
    (hranked' : Ranking routines' ranked') : ranked = ranked' := by
  refine eq_of_mem_iff (fun a b hab hba => ?_) hranked.ranked hranked'.ranked fun spot =>
    ⟨h.mem_of_ranking hranked hranked', h.symm.mem_of_ranking hranked' hranked⟩
  rcases hab with hab | ⟨hab, hle, hne⟩
  · rcases hba with hba | ⟨hba, -, -⟩
    · exact Nat.lt_asymm hab hba
    · exact Nat.lt_irrefl _ (hba ▸ hab)
  · rcases hba with hba | ⟨-, hge, -⟩
    · exact Nat.lt_irrefl _ (hab ▸ hba)
    · exact hne (Text.le_antisymm hle hge)

theorem hotspots_eq (limit : Int) :
    (ofRoutines routines).hotspots limit = (ofRoutines routines').hotspots limit := by
  change upTo limit (ofRoutines routines).ranking = upTo limit (ofRoutines routines').ranking
  rw [h.eq_of_ranking (ranking_ofRoutines routines) (ranking_ofRoutines routines')]

theorem allCycles_perm :
    (ofRoutines routines).allCycles.Perm (ofRoutines routines').allCycles := by
  refine (List.perm_ext_iff_of_nodup (nodup_allCycles (tidy_ofRoutines _))
    (nodup_allCycles (tidy_ofRoutines _))).mpr fun cycle => ?_
  rw [mem_allCycles_ofRoutines, mem_allCycles_ofRoutines, h.calls_eq]

/-- Where no cycle is left out, the cycles are the same. -/
theorem cycles_eq (hcap : (elementaryCycles (Calls routines)).ncard ≤ maxCycles) :
    (ofRoutines routines).cycles = (ofRoutines routines').cycles := by
  have hcap' : (elementaryCycles (Calls routines')).ncard ≤ maxCycles := by
    rwa [← h.calls_eq]
  have hperm : (ofRoutines routines).cycles.Perm (ofRoutines routines').cycles := by
    refine (cycles_perm routines).trans (List.Perm.trans ?_ (cycles_perm routines').symm)
    rw [chosenCycles_eq hcap, chosenCycles_eq hcap', h.lastSpelling_eq]
    exact h.allCycles_perm.map _
  have hsorted (rs : List Routine) := pairwise_sortBy
    ((Text.ranks_le.lexLe).comap (List.map Text.lower))
    (((ofRoutines rs).longCycles (maxCycles - (ofRoutines rs).selfCalls)).map fun cycle =>
      cycle.map (ofRoutines rs).spelling)
  refine hperm.eq_of_pairwise (fun a b ha hb hab hba => ?_) (hsorted routines) (hsorted routines')
  rw [(exists_of_mem_cycles ha).2, (exists_of_mem_cycles hb).2, h.lastSpelling_eq,
    lexLe_antisymm (fun _ _ => Text.le_antisymm) hab hba]

end Reordered

/-- What two summaries have in common, unless there are more cycles than are counted. -/
structure Matches (routines : List Routine) (s t : Summary) : Prop where
  edges : s.edges = t.edges
  hotspots : s.hotspots = t.hotspots
  unresolvedCalls : s.unresolvedCalls.Perm t.unresolvedCalls
  cycles : (elementaryCycles (Calls routines)).ncard ≤ maxCycles → s.cycles = t.cycles

theorem Reordered.matches_summary (h : Reordered routines routines') (limit : Int) :
    Matches routines ((ofRoutines routines).summary limit)
      ((ofRoutines routines').summary limit) where
  edges := h.edges_perm.length_eq
  hotspots := h.hotspots_eq limit
  unresolvedCalls :=
    ((sortBy_perm _ _).trans h.unresolved_perm).trans (sortBy_perm _ _).symm
  cycles := h.cycles_eq

end ProcCatalog.CallGraph
