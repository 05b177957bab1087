import ProcCatalog.Proofs.Body.Calls
import ProcCatalog.Proofs.CallGraph.SelfCalls
import ProcCatalog.Proofs.Catalog.Accounting
import ProcCatalog.Proofs.Catalog.Calls

/-!
# No procedure of a catalog calls itself

What a procedure is listed to call was read from its own body under its own name, so it is another
procedure. This holds of each procedure for itself, and with it of the call graph, where procedures
of one name are one node.
-/

namespace ProcCatalog

namespace Analyzer

variable {a : Analyzer} {blocks : List Script.Block}

theorem callable_of_mem_analyze {p : Procedure} (hp : p ∈ (a.analyze blocks).procedures)
    {call : Text} (hcall : call ∈ p.calls) : Body.Callable p.name call := by
  obtain ⟨d, hd⟩ := exists_classify_of_mem hp
  obtain ⟨assignment, -, hd⟩ := Outcome.bind_eq_ok.mp hd
  rw [← Except.ok.inj hd] at hcall ⊢
  exact Body.callable_of_mem_calls hcall

theorem callsOthers_analyze (a : Analyzer) (blocks : List Script.Block) :
    CallGraph.CallsOthers ((a.analyze blocks).procedures.map Catalog.routine) := by
  intro r hr call hcall
  obtain ⟨p, hp, rfl⟩ := List.mem_map.mp hr
  exact (callable_of_mem_analyze hp hcall).other

end Analyzer

/-! ## Runs -/

namespace Cataloger

variable {c : Cataloger} {folder : Storage.Folder} {catalog : Catalog}

/-- Whatever a cataloger makes a catalog of, it analyzes some blocks and builds the catalog. -/
theorem exists_build_of_runOn {today : Text} {blocks : List Script.Block} {batches : Nat}
    {name path : Text} (h : (c.runOn folder today blocks batches name path).result = .ok catalog) :
    ∃ kept exportDate,
      Catalog.build (c.settingWith kept batches name exportDate)
        ((c.analyzerWith kept).analyze blocks) = .ok catalog := by
  rw [runOn] at h
  split at h
  · split at h
    · cases h
    · rename_i kept warnings _
      exact ⟨kept, _, h⟩
  · cases h

theorem exists_build_of_analyzeText {today text name : Text}
    (h : (c.analyzeText folder today text name).result = .ok catalog) :
    ∃ kept setting,
      Catalog.build setting
        ((c.analyzerWith kept).analyze (Script.Splitter.split {} text).1) = .ok catalog := by
  obtain ⟨kept, exportDate, hbuild⟩ := exists_build_of_runOn h
  exact ⟨kept, _, hbuild⟩

theorem exists_build_of_analyze {today : Text}
    (h : (c.analyze folder today).result = .ok catalog) :
    ∃ kept blocks setting,
      Catalog.build setting ((c.analyzerWith kept).analyze blocks) = .ok catalog := by
  rw [analyze] at h
  split at h
  · cases h
  · split at h
    · cases h
    · obtain ⟨kept, exportDate, hbuild⟩ := exists_build_of_runOn h
      exact ⟨kept, _, _, hbuild⟩

end Cataloger

/-! ## Catalogs -/

namespace Catalog

open CallGraph (Loopless)

/-- What a catalog shows of the calls of the procedures that were found. -/
structure CallsNoSelf (found : List Procedure) (c : Catalog) : Prop where
  calls : ∀ p ∈ c.procedures, ∀ call ∈ p.calls, Body.Callable p.name call
  callGraph : ∃ s, c.callGraph = some s ∧ Loopless (found.map routine) s

theorem callsNoSelf_of_eq_ok {a : Analyzer} {blocks : List Script.Block} {setting : Setting}
    {c : Catalog} (h : build setting (a.analyze blocks) = .ok c) :
    CallsNoSelf (a.analyze blocks).procedures c := by
  constructor
  · intro p hp call hcall
    obtain ⟨q, hq, rfl⟩ := List.mem_map.mp (mem_withCallers_of_mem_procedures h hp)
    exact Analyzer.callable_of_mem_analyze hq hcall
  · obtain ⟨-, listings, -, rfl⟩ := build_eq_ok.mp h
    exact ⟨_, rfl, CallGraph.loopless_summary (Analyzer.callsOthers_analyze a blocks) _⟩

/-- Neither a listed call nor an edge leads from a procedure to itself, whatever the script, the
tables, the rules and the hints. -/
theorem callsNoSelf_of_blocks (a : Analyzer) (blocks : List Script.Block) :
    (∀ setting c, build setting (a.analyze blocks) = .ok c →
      CallsNoSelf (a.analyze blocks).procedures c) ∧
    ∀ (cataloger : Cataloger) (folder : Storage.Folder) (today : Text) (c : Catalog),
      (∀ text name, (cataloger.analyzeText folder today text name).result = .ok c →
        ∃ kept, CallsNoSelf ((cataloger.analyzerWith kept).analyze
          (Script.Splitter.split {} text).1).procedures c) ∧
      ((cataloger.analyze folder today).result = .ok c →
        ∃ kept blocks setting,
          build setting ((cataloger.analyzerWith kept).analyze blocks) = .ok c ∧
            CallsNoSelf ((cataloger.analyzerWith kept).analyze blocks).procedures c) := by
  refine ⟨fun setting c => callsNoSelf_of_eq_ok, fun cataloger folder today c => ⟨?_, ?_⟩⟩
  · intro text name h
    obtain ⟨kept, setting, hbuild⟩ := Cataloger.exists_build_of_analyzeText h
    exact ⟨kept, callsNoSelf_of_eq_ok hbuild⟩
  · intro h
    obtain ⟨kept, blocks, setting, hbuild⟩ := Cataloger.exists_build_of_analyze h
    exact ⟨kept, blocks, setting, hbuild, callsNoSelf_of_eq_ok hbuild⟩

/-- Two procedures share a name across schemas, and both are in a cycle with a third one. -/
theorem callsNoSelf_of_shared_name :
    ∃ c : Catalog, ∃ text : Text,
      text = "CREATE PROC a.P AS EXEC Q\nGO\nCREATE PROC a.Q AS EXEC P\nGO\n".toList ++
        "CREATE PROC b.p AS EXEC q".toList ∧
      (Cataloger.analyzeText {} {} [] text []).result = .ok c ∧
      (∃ kept, CallsNoSelf ((Cataloger.analyzerWith {} kept).analyze
        (Script.Splitter.split {} text).1).procedures c) ∧
      c.procedures.map (fun p => (p.name, p.calls)) =
        [("P".toList, ["Q".toList]), ("p".toList, ["q".toList]), ("Q".toList, ["P".toList])] ∧
      c.callGraph.map (fun s => s.hotspots.map fun h => (h.callers, h.transitiveCallers)) =
        some [(1, 1), (1, 1)] := by
  let text : Text :=
    "CREATE PROC a.P AS EXEC Q\nGO\nCREATE PROC a.Q AS EXEC P\nGO\n".toList ++
      "CREATE PROC b.p AS EXEC q".toList
  have hread : ((Cataloger.analyzeText {} {} [] text []).result.toOption.map fun c =>
      (c.procedures.map (fun p => (p.name, p.calls)),
        c.callGraph.map fun s => s.hotspots.map fun h => (h.callers, h.transitiveCallers))) =
      some ([("P".toList, ["Q".toList]), ("p".toList, ["q".toList]), ("Q".toList, ["P".toList])],
        some [(1, 1), (1, 1)]) := by
    decide +kernel
  cases h : (Cataloger.analyzeText {} {} [] text []).result with
  | error fault =>
      rw [h] at hread
      cases hread
  | ok c =>
      rw [h] at hread
      obtain ⟨hcalls, hspots⟩ := Prod.mk.inj (Option.some.inj hread)
      have hscripts := (callsNoSelf_of_blocks (Cataloger.analyzerWith {} ⟨[], none⟩) []).2
      exact ⟨c, text, rfl, h, (hscripts {} {} [] c).1 text [] h, hcalls, hspots⟩

end Catalog

end ProcCatalog
