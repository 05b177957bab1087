import ProcCatalog.Proofs.CallGraph.Summaries
import ProcCatalog.Proofs.Catalog.Building

/-!
# The calls that a catalog shows

The procedures of a catalog show who calls them, and the catalog shows a summary of their calls.
Both come from the procedures as they are listed, whatever their modules.
-/

namespace ProcCatalog.Catalog

open CallGraph (Agrees ListsCallers)

variable {setting : Setting} {analysis : Analysis} {c : Catalog} {ps : List Procedure}

theorem listsCallers_of_mem_withCallers {reference : Collaborator.CrossReference} {p : Procedure}
    (h : p ∈ withCallers reference ps) :
    ListsCallers (ps.map routine) (Text.lower p.name) p.procedureCallers := by
  obtain ⟨q, -, rfl⟩ := List.mem_map.mp h
  exact CallGraph.listsCallers_callersOf (ps.map routine) q.name

theorem mem_withCallers_of_mem_procedures (h : build setting analysis = .ok c) {p : Procedure}
    (hp : p ∈ c.procedures) : p ∈ withCallers setting.crossReference analysis.procedures := by
  obtain ⟨-, listings, hlistings, rfl⟩ := build_eq_ok.mp h
  obtain ⟨l, hl, hp⟩ := List.mem_flatMap.mp hp
  rw [procedures_of_mem_listingsOf hlistings hl, mem_sortBy] at hp
  exact List.mem_of_mem_filter hp

/-- Edges, hotspots, unresolved calls and the callers of each procedure agree on what the procedures
call, and these are what a catalog shows. -/
theorem agrees_of_calls (ps : List Procedure) (limit : Nat) :
    Agrees (ps.map routine) limit ((graphOf ps).summary limit) ∧
      (∀ reference, ∀ p ∈ withCallers reference ps,
        ListsCallers (ps.map routine) (Text.lower p.name) p.procedureCallers) ∧
      ∀ (setting : Setting) (analysis : Analysis) (c : Catalog),
        build setting analysis = .ok c → analysis.procedures = ps → setting.hotspotLimit = limit →
          c.callGraph = some ((graphOf ps).summary limit) ∧
            ∀ p ∈ c.procedures,
              ListsCallers (ps.map routine) (Text.lower p.name) p.procedureCallers := by
  refine ⟨CallGraph.agrees_ofRoutines _ _, fun _ _ => listsCallers_of_mem_withCallers, ?_⟩
  rintro setting analysis c hbuild rfl hlimit
  refine ⟨?_, fun p hp =>
    listsCallers_of_mem_withCallers (mem_withCallers_of_mem_procedures hbuild hp)⟩
  obtain ⟨-, listings, -, rfl⟩ := build_eq_ok.mp hbuild
  rw [hlimit]

/-- A procedure that calls itself is a caller of its own, but no path leads to it from another
node; calls count once in whatever spelling. -/
example :
    let ps : List Procedure := [
      { schema := "a".toList, name := "P".toList, calls := ["p".toList, "Q".toList] },
      { schema := "b".toList, name := "p".toList, calls := ["q".toList, "R".toList] },
      { schema := "a".toList, name := "q".toList }]
    (graphOf ps).summary 2 = {
      edges := 2
      cycles := []
      hotspots := [⟨"p".toList, "b".toList, 1, 0⟩, ⟨"q".toList, "a".toList, 1, 1⟩]
      unresolvedCalls := ["R".toList] } ∧
    (withCallers [] ps).map (·.procedureCallers) =
      [["p".toList], ["p".toList], ["p".toList]] := by decide +kernel

end ProcCatalog.Catalog
