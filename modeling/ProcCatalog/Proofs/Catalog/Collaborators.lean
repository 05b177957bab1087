import ProcCatalog.Proofs.Catalog.History
import ProcCatalog.Proofs.Catalog.SelfCalls
import ProcCatalog.Proofs.Collaborator.Usable

/-!
# Catalogs and the collaborator files they need

A catalog is made whenever both collaborator files can be used or are absent, and what they hold
can be listed. A file with a value of the wrong kind ends the analysis.
-/

namespace ProcCatalog

open Collaborator
open Storage (Folder)

namespace Cataloger

variable {c : Cataloger} {folder : Folder}

theorem collaboratorsFor_eq_ok {kept : Collaborators} :
    (c.anew.collaboratorsFor folder).1 = .ok kept ↔
      (loadKnownTables folder c.input.tablesPath).1 = .ok kept.knownTables ∧
        (loadCrossReference folder c.input.crossReferencePath).1 = .ok kept.crossReference := by
  obtain ⟨tables, reference⟩ := kept
  rw [collaboratorsFor, Holding.read, if_neg (by simp [anew])]
  dsimp only [anew]
  cases loadKnownTables folder c.input.tablesPath with
  | mk known warnings =>
      cases known with
      | error fault => simp [Except.map]
      | ok known =>
          cases loadCrossReference folder c.input.crossReferencePath with
          | mk callers more => cases callers <;> simp [Except.map, Holding.collaborators]

theorem exists_collaboratorsFor_iff :
    (∃ kept, (c.anew.collaboratorsFor folder).1 = .ok kept) ↔
      FileUsable TablesUsable folder c.input.tablesPath ∧
        FileUsable ReferenceUsable folder c.input.crossReferencePath := by
  rw [← exists_loadKnownTables_iff, ← exists_loadCrossReference_iff]
  simp only [collaboratorsFor_eq_ok]
  constructor
  · rintro ⟨kept, htables, hreference⟩
    exact ⟨⟨_, htables⟩, _, hreference⟩
  · rintro ⟨⟨tables, htables⟩, reference, hreference⟩
    exact ⟨⟨tables, reference⟩, htables, hreference⟩

/-- What it takes to make a catalog of some blocks: settings without a problem, collaborator files
that can be used, and what they say of the procedures can be listed. -/
structure CanCatalog (c : Cataloger) (folder : Folder) (blocks : List Script.Block) : Prop where
  settings : c.analysis.problems = []
  tables : FileUsable TablesUsable folder c.input.tablesPath
  reference : FileUsable ReferenceUsable folder c.input.crossReferencePath
  listed : ∃ kept, (c.anew.collaboratorsFor folder).1 = .ok kept ∧
    Catalog.HasLabels (kept.crossReference.getD [])
      ((c.analyzerWith kept).analyze blocks).procedures ∧
    Catalog.SortableCodes ((c.analyzerWith kept).analyze blocks).procedures

theorem exists_runOn_iff {today : Text} {blocks : List Script.Block} {batches : Nat}
    {name path : Text} :
    (∃ catalog, (c.anew.runOn folder today blocks batches name path).result = .ok catalog) ↔
      CanCatalog c folder blocks := by
  have hanalysis : c.anew.analysis = c.analysis := rfl
  constructor
  · rintro ⟨catalog, h⟩
    rw [runOn, hanalysis] at h
    cases hproblems : c.analysis.problems with
    | cons problem problems =>
        rw [hproblems] at h
        cases h
    | nil =>
        rw [hproblems] at h
        dsimp only at h
        cases hread : c.anew.collaboratorsFor folder with
        | mk result warnings =>
            rw [hread] at h
            cases result with
            | error fault => cases h
            | ok kept =>
                have hkept : (c.anew.collaboratorsFor folder).1 = .ok kept := by rw [hread]
                obtain ⟨htables, hreference⟩ := exists_collaboratorsFor_iff.mp ⟨kept, hkept⟩
                exact ⟨hproblems, htables, hreference, kept, hkept,
                  Catalog.exists_build_iff.mp ⟨catalog, h⟩⟩
  · rintro ⟨hproblems, -, -, kept, hkept, hlisted⟩
    let date := ExportDate.resolve c.input.exportDate (Storage.baseName path) today
    obtain ⟨catalog, hbuild⟩ : ∃ catalog, Catalog.build (c.settingWith kept batches name date)
        ((c.analyzerWith kept).analyze blocks) = .ok catalog :=
      Catalog.exists_build_iff.mpr hlisted
    refine ⟨catalog, ?_⟩
    rw [runOn, hanalysis, hproblems]
    dsimp only
    cases hread : c.anew.collaboratorsFor folder with
    | mk result warnings =>
        obtain rfl : result = .ok kept := by simpa [hread] using hkept
        exact hbuild

theorem exists_analyzeText_iff {today text name : Text} :
    (∃ catalog, (c.anew.analyzeText folder today text name).result = .ok catalog) ↔
      CanCatalog c folder (Script.Splitter.split {} text).1 :=
  exists_runOn_iff

theorem exists_analyze_iff {today : Text} :
    (∃ catalog, (c.anew.analyze folder today).result = .ok catalog) ↔
      folder.isFile c.input.inputPath = true ∧ ∃ blocks splitter,
        ((Source.ofFile c.input.inputPath c.input.encoding).whileOpen folder
          (·.readBlocks {})).1 = .ok (blocks, splitter) ∧ CanCatalog c folder blocks := by
  have hinput : c.anew.input = c.input := rfl
  rw [analyze, hinput]
  cases folder.isFile c.input.inputPath with
  | false => simp
  | true =>
      simp only [Bool.not_true, Bool.false_eq_true, if_false, true_and]
      cases (Source.ofFile c.input.inputPath c.input.encoding).whileOpen folder
          (·.readBlocks {}) with
      | mk read source =>
          cases read with
          | error fault => simp
          | ok found =>
              obtain ⟨blocks, splitter⟩ := found
              simp only [exists_runOn_iff, Except.ok.injEq, Prod.mk.injEq]
              constructor
              · exact fun h => ⟨_, _, ⟨rfl, rfl⟩, h⟩
              · rintro ⟨_, _, ⟨rfl, -⟩, h⟩
                exact h

/-- A collaborator file is loaded, and a catalog is made with it, exactly if it holds no value of a
kind that its readers do not take, at a place that they look at. A file that is missing or holds no
document is no obstacle, unless the document is nested too deep. -/
theorem loads_iff_usable (folder : Folder) :
    (∀ path, ((∃ names, (loadKnownTables folder path).1 = .ok names) ↔
        FileUsable TablesUsable folder path) ∧
      ((∃ reference, (loadCrossReference folder path).1 = .ok reference) ↔
        FileUsable ReferenceUsable folder path)) ∧
    ∀ (c : Cataloger) (today : Text),
      (∀ text name,
        (∃ catalog, (c.anew.analyzeText folder today text name).result = .ok catalog) ↔
          CanCatalog c folder (Script.Splitter.split {} text).1) ∧
      ((∃ catalog, (c.anew.analyze folder today).result = .ok catalog) ↔
        folder.isFile c.input.inputPath = true ∧ ∃ blocks splitter,
          ((Source.ofFile c.input.inputPath c.input.encoding).whileOpen folder
            (·.readBlocks {})).1 = .ok (blocks, splitter) ∧ CanCatalog c folder blocks) :=
  ⟨fun path => ⟨exists_loadKnownTables_iff folder path, exists_loadCrossReference_iff folder path⟩,
    fun _ _ => ⟨fun _ _ => exists_analyzeText_iff, exists_analyze_iff⟩⟩

/-- A folder in which the collaborator files have a number where a list or a text should be. -/
def mistaken : Folder where
  files := [(["t.json".toList], Storage.encodeUtf8 "\x7b\"tables\": 5\x7d".toList),
    (["x.json".toList], Storage.encodeUtf8 "[\x7b\"name\": 5\x7d]".toList)]

/-- A number at such a place ends the loading, and the analysis with it. -/
theorem not_loads_mistaken :
    (loadKnownTables mistaken "t.json".toList).1 = .error .wrongType ∧
      (∀ reference, (loadCrossReference mistaken "x.json".toList).1 ≠ .ok reference) ∧
      (∀ catalog, (analyzeText { input := { tablesPath := "t.json".toList } } mistaken []
        "SELECT 1".toList []).result ≠ .ok catalog) := by
  have hmember : (loadCrossReference mistaken "x.json".toList).1.isOk = false := by
    decide +kernel
  have hresult : (analyzeText { input := { tablesPath := "t.json".toList } } mistaken []
      "SELECT 1".toList []).result.isOk = false := by
    decide +kernel
  refine ⟨by decide +kernel, fun reference h => ?_, fun catalog h => ?_⟩
  · rw [h] at hmember
    cases hmember
  · rw [h] at hresult
    cases hresult

end Cataloger

end ProcCatalog
