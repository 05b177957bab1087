import ProcCatalog.Cataloger
import ProcCatalog.Proofs.Outcome
import ProcCatalog.Proofs.Storage.Files

/-!
# Catalogers that were called before

A cataloger keeps what it read of its collaborator files, and reads them again only if a reading of
both did not succeed. While its files stay as they are, what it keeps is what it would read. So the
outcome of a call does not depend on the calls before it.
-/

namespace ProcCatalog

open Storage (Folder)

/-! ## Folders with the same files -/

namespace Storage.Folder

/-- The same stands at some paths of two folders. -/
def AgreeAt (paths : List Text) (folder other : Folder) : Prop :=
  ∀ path ∈ paths, folder.entryAt path = other.entryAt path

instance (paths : List Text) (folder other : Folder) : Decidable (folder.AgreeAt paths other) :=
  inferInstanceAs (Decidable (∀ path ∈ paths, _))

variable {folder other : Folder} {path : Text}

theorem isFile_congr (h : folder.entryAt path = other.entryAt path) :
    folder.isFile path = other.isFile path := by
  rw [isFile, isFile, h]

theorem readBytes_congr (h : folder.entryAt path = other.entryAt path)
    (hfile : folder.isFile path = true) : folder.readBytes path = other.readBytes path := by
  obtain ⟨bytes, hentry⟩ := isFile_iff.mp hfile
  rw [readBytes_eq_ok_iff.mpr hentry, readBytes_eq_ok_iff.mpr (h ▸ hentry)]

theorem readValue_congr (h : folder.entryAt path = other.entryAt path)
    (hfile : folder.isFile path = true) : folder.readValue path = other.readValue path := by
  rw [readValue, readValue, readText, readText, readBytes_congr h hfile]

end Storage.Folder

open Storage.Folder (isFile_congr readValue_congr)

variable {folder other : Folder}

theorem Collaborator.readFile_congr {path : Text} (h : folder.entryAt path = other.entryAt path)
    (file : CollaboratorFile) : readFile folder file path = readFile other file path := by
  rw [readFile, readFile, ← isFile_congr h]
  split
  · rfl
  · split
    · rename_i hfile
      rw [readValue_congr h hfile]
    · rfl

def InputSettings.collaboratorPaths (s : InputSettings) : List Text :=
  [s.tablesPath, s.crossReferencePath]

namespace RulesGiven

def paths : RulesGiven → List Text
  | .file path => [path]
  | _ => []

theorem load_congr {given : RulesGiven} {rules : Assign.Rules}
    (h : folder.AgreeAt given.paths other) (hload : given.load folder = .ok rules) :
    given.load other = .ok rules := by
  cases given with
  | standard => exact hload
  | chosen rules => exact hload
  | file path =>
      have hsame : folder.entryAt path = other.entryAt path := h path (by simp [paths])
      rw [load, Assign.Rules.load] at hload ⊢
      obtain ⟨v, hv, -⟩ := Outcome.bind_eq_ok.mp hload
      rwa [← readValue_congr hsame (Storage.Folder.isFile_of_readValue hv)]

end RulesGiven

/-- The paths of the files of which a cataloger keeps what it read. -/
def Arguments.keptPaths (arguments : Arguments) : List Text :=
  arguments.input.collaboratorPaths ++ arguments.rules.paths

/-! ## What is held -/

namespace Holding

variable {held : Holding} {input : InputSettings}

theorem read_congr (h : folder.AgreeAt input.collaboratorPaths other) (held : Holding) :
    held.read input folder = held.read input other := by
  have htables : folder.entryAt input.tablesPath = other.entryAt input.tablesPath :=
    h _ (by simp [InputSettings.collaboratorPaths])
  have hreference : folder.entryAt input.crossReferencePath =
      other.entryAt input.crossReferencePath := h _ (by simp [InputSettings.collaboratorPaths])
  rw [read, read, Collaborator.loadKnownTables, Collaborator.loadKnownTables,
    Collaborator.loadCrossReference, Collaborator.loadCrossReference,
    Collaborator.readFile_congr htables, Collaborator.readFile_congr hreference]

/-- What is held is complete only if it is what is read anew. -/
def UpToDate (held : Holding) (input : InputSettings) (folder : Folder) : Prop :=
  held.complete = true →
    ∃ warnings, ({} : Holding).read input folder = (.ok (), warnings, held)

/-- A reading fails as one from the start does, and leaves what is incomplete; or it succeeds, and
then the same is held. -/
theorem UpToDate.read_cases (h : held.UpToDate input folder) :
    (∃ fault, (held.read input folder).1 = .error fault ∧
        (({} : Holding).read input folder).1 = .error fault ∧
        (held.read input folder).2.2.complete = false) ∨
      (held.read input folder).1 = .ok () ∧
        ∃ warnings, ({} : Holding).read input folder =
          (.ok (), warnings, (held.read input folder).2.2) := by
  cases hcomplete : held.complete with
  | true =>
      obtain ⟨warnings, hread⟩ := h hcomplete
      refine .inr ⟨by rw [read, if_pos hcomplete], warnings, ?_⟩
      rw [hread, read, if_pos hcomplete]
  | false =>
      rw [read, read, if_neg (by simp [hcomplete]), if_neg (by simp)]
      cases Collaborator.loadKnownTables folder input.tablesPath with
      | mk tables warnings =>
          cases tables with
          | error fault => exact .inl ⟨fault, rfl, rfl, hcomplete⟩
          | ok tables =>
              -- the second file decides; a fault of it leaves the tables
              cases Collaborator.loadCrossReference folder input.crossReferencePath with
              | mk reference more =>
                  cases reference with
                  | error fault => exact .inl ⟨fault, rfl, rfl, hcomplete⟩
                  | ok reference => exact .inr ⟨rfl, warnings ++ more, rfl⟩

theorem UpToDate.read (h : held.UpToDate input folder) :
    (held.read input folder).2.2.UpToDate input folder := by
  intro hcomplete
  rcases h.read_cases with ⟨fault, -, -, hincomplete⟩ | ⟨-, hread⟩
  · simp [hincomplete] at hcomplete
  · exact hread

end Holding

/-! ## A single call -/

namespace Cataloger

variable {c : Cataloger}

def anew (c : Cataloger) : Cataloger := { c with held := {} }

theorem collaboratorsFor_eq (h : c.held.UpToDate c.input folder) :
    (c.collaboratorsFor folder).1 = (c.anew.collaboratorsFor folder).1 := by
  simp only [collaboratorsFor, anew]
  rcases h.read_cases with ⟨fault, hread, hanew, -⟩ | ⟨hread, warnings, hanew⟩
  · rw [hread, hanew]
    rfl
  · rw [hread, hanew]

theorem result_runOn_eq (h : c.held.UpToDate c.input folder) (today : Text)
    (blocks : List Script.Block) (batches : Nat) (name path : Text) :
    (c.runOn folder today blocks batches name path).result =
      (c.anew.runOn folder today blocks batches name path).result := by
  have hkept := collaboratorsFor_eq h
  have hanalysis : c.anew.analysis = c.analysis := rfl
  rw [runOn, runOn, hanalysis]
  cases c.analysis.problems with
  | cons problem problems => rfl
  | nil =>
      dsimp only
      generalize c.collaboratorsFor folder = read at hkept
      generalize c.anew.collaboratorsFor folder = readAnew at hkept
      obtain ⟨result, warnings⟩ := read
      obtain ⟨resultAnew, warningsAnew⟩ := readAnew
      obtain rfl : result = resultAnew := hkept
      cases result <;> rfl

theorem result_analyzeText_eq (h : c.held.UpToDate c.input folder) (today text name : Text) :
    (c.analyzeText folder today text name).result =
      (c.anew.analyzeText folder today text name).result :=
  result_runOn_eq h today _ _ name name

theorem result_analyze_eq (h : c.held.UpToDate c.input folder) (today : Text) :
    (c.analyze folder today).result = (c.anew.analyze folder today).result := by
  have hinput : c.anew.input = c.input := rfl
  rw [analyze, analyze]
  simp only [hinput]
  split
  · rfl
  · split
    · rfl
    · exact result_runOn_eq h today _ _ _ _

theorem cataloger_runOn (c : Cataloger) (folder : Folder) (today : Text)
    (blocks : List Script.Block) (batches : Nat) (name path : Text) :
    (c.runOn folder today blocks batches name path).cataloger = c ∨
      (c.runOn folder today blocks batches name path).cataloger = c.afterReading folder := by
  rw [runOn]
  split
  · split
    · exact .inr rfl
    · exact .inr rfl
  · exact .inl rfl

theorem cataloger_analyze (c : Cataloger) (folder : Folder) (today : Text) :
    (c.analyze folder today).cataloger = c ∨
      (c.analyze folder today).cataloger = c.afterReading folder := by
  rw [analyze]
  split
  · exact .inl rfl
  · split
    · exact .inl rfl
    · exact cataloger_runOn c folder today _ _ _ _

end Cataloger

/-! ## Calls in a row -/

inductive Call where
  | analyze
  | analyzeText (text name : Text)
  | exportTo (directory : Text) (given : Option Catalog)

def Call.perform (call : Call) (today : Text) : Cataloger × Folder → Cataloger × Folder
  | (c, folder) =>
    match call with
    | .analyze => ((c.analyze folder today).cataloger, folder)
    | .analyzeText text name => ((c.analyzeText folder today text name).cataloger, folder)
    | .exportTo directory given =>
      let run := c.exportTo folder today directory given
      (run.cataloger, run.folder)

theorem Call.cataloger_perform (call : Call) (today : Text) (c : Cataloger) (folder : Folder) :
    (call.perform today (c, folder)).1 = c ∨
      (call.perform today (c, folder)).1 = c.afterReading folder := by
  cases call with
  | analyze => exact c.cataloger_analyze folder today
  | analyzeText text name => exact c.cataloger_runOn folder today _ _ name name
  | exportTo directory given =>
      cases given with
      | some catalog => exact .inl rfl
      | none =>
          have hrun : (perform (.exportTo directory none) today (c, folder)).1 =
              (c.analyze folder today).cataloger := by
            simp only [perform, Cataloger.exportTo]
            split <;> rfl
          rw [hrun]
          exact c.cataloger_analyze folder today

/-- What calls lead to while the same stands at some paths. An export changes the folder elsewhere,
and so may anything else between two calls. -/
inductive Leads (paths : List Text) (first : Cataloger × Folder) : Cataloger × Folder → Prop
  | none : Leads paths first first
  | call {state : Cataloger × Folder} (before : Leads paths first state) (call : Call)
      (today : Text) (same : (call.perform today state).2.AgreeAt paths first.2) :
      Leads paths first (call.perform today state)
  | change {c : Cataloger} {folder : Folder} (before : Leads paths first (c, folder))
      (other : Folder) (same : other.AgreeAt paths first.2) : Leads paths first (c, other)

theorem Leads.agreeAt {paths : List Text} {first state : Cataloger × Folder}
    (h : Leads paths first state) : state.2.AgreeAt paths first.2 := by
  cases h with
  | none => exact fun _ _ => rfl
  | call _ _ _ same => exact same
  | change _ _ same => exact same

/-- A cataloger that has come of another one: its settings are the same, and what it holds is what
the files say. -/
structure Cataloger.ComesOf (c first : Cataloger) (folder : Folder) : Prop where
  anew : c.anew = first.anew
  upToDate : c.held.UpToDate first.input folder

namespace Cataloger.ComesOf

variable {c first : Cataloger}

theorem input_eq (h : c.ComesOf first folder) : c.input = first.input :=
  congrArg (·.input) h.anew

theorem perform (h : c.ComesOf first folder) (call : Call) (today : Text)
    (hsame : other.AgreeAt first.input.collaboratorPaths folder) :
    (call.perform today (c, other)).1.ComesOf first folder := by
  rcases call.cataloger_perform today c other with hc | hc
  · rwa [hc]
  · rw [hc]
    refine ⟨h.anew, ?_⟩
    change ((c.held.read c.input other).2.2).UpToDate first.input folder
    rw [h.input_eq, Holding.read_congr hsame]
    exact h.upToDate.read

end Cataloger.ComesOf

theorem Leads.comesOf {paths : List Text} {first : Cataloger} {folder : Folder}
    {state : Cataloger × Folder} (h : Leads paths (first, folder) state)
    (hpaths : first.input.collaboratorPaths ⊆ paths)
    (hfirst : first.held.UpToDate first.input folder) : state.1.ComesOf first folder := by
  induction h with
  | none => exact ⟨rfl, hfirst⟩
  | @call state before call today _ ih =>
      exact ih.perform call today fun path hpath => before.agreeAt path (hpaths hpath)
  | change _ _ _ ih => exact ih

/-! ## The outcome of a call -/

namespace Cataloger

theorem make_eq_ok {arguments : Arguments} {c : Cataloger} :
    make arguments folder = .ok c ↔
      ∃ rules, arguments.rules.load folder = .ok rules ∧
        c = { input := arguments.input, analysis := arguments.analysis, rules } := by
  rw [make]
  constructor
  · intro h
    obtain ⟨rules, hrules, h⟩ := Outcome.bind_eq_ok.mp h
    exact ⟨rules, hrules, (Except.ok.inj h).symm⟩
  · rintro ⟨rules, hrules, rfl⟩
    exact Outcome.bind_eq_ok.mpr ⟨rules, hrules, rfl⟩

/-- After any calls, a cataloger whose files are the same answers as one that is made now. -/
theorem result_after_calls {arguments : Arguments} {first c : Cataloger} {folder now : Folder}
    (hmake : make arguments folder = .ok first)
    (h : Leads arguments.keptPaths (first, folder) (c, now)) :
    ∃ fresh, make arguments now = .ok fresh ∧ ∀ today,
      (∀ text name, (c.analyzeText now today text name).result =
        (fresh.analyzeText now today text name).result) ∧
      (c.analyze now today).result = (fresh.analyze now today).result := by
  obtain ⟨rules, hrules, rfl⟩ := make_eq_ok.mp hmake
  have hinput : arguments.input.collaboratorPaths ⊆ arguments.keptPaths :=
    List.subset_append_left _ _
  have hnow : now.AgreeAt arguments.keptPaths folder := h.agreeAt
  have hcomes := h.comesOf hinput fun hcomplete => nomatch hcomplete
  have hheld : c.held.UpToDate c.input now := by
    intro hcomplete
    rw [hcomes.input_eq, Holding.read_congr fun path hpath => hnow path (hinput hpath)]
    exact hcomes.upToDate hcomplete
  have hload : arguments.rules.load now = .ok rules :=
    RulesGiven.load_congr
      (fun path hpath => (hnow path (List.mem_append_right _ hpath)).symm) hrules
  refine ⟨_, make_eq_ok.mpr ⟨rules, hload, rfl⟩, fun today => ⟨fun text name => ?_, ?_⟩⟩
  · rw [result_analyzeText_eq hheld, hcomes.anew]
    rfl
  · rw [result_analyze_eq hheld, hcomes.anew]
    rfl

/-- The tables were read, and the cross-reference cannot be; an export comes in between. -/
theorem result_after_calls_of_half_reading :
    ∃ (arguments : Arguments) (first c : Cataloger) (folder now : Folder),
      make arguments folder = .ok first ∧ Leads arguments.keptPaths (first, folder) (c, now) ∧
      c.held.knownTables = some [Text.raw "T".toList] ∧ c.held.complete = false ∧
      (folder.files.length, now.files.length) = (2, 3) ∧
      (∀ today text name, (c.analyzeText now today text name).result =
        (first.analyzeText now today text name).result) ∧
      (c.analyzeText now [] [] []).result.toOption.isNone = true := by
  let folder : Folder :=
    { files := [(["t".toList], Storage.encodeUtf8 "[\"T\"]".toList),
        (["x".toList], Storage.encodeUtf8 "[\x7b\"name\": 1\x7d]".toList)] }
  let arguments : Arguments :=
    { input := { tablesPath := "t".toList, crossReferencePath := "x".toList } }
  let first : Cataloger := { input := arguments.input }
  have hmake (other : Folder) : make arguments other = .ok first := rfl
  let failed := (Call.analyzeText "PRINT 1".toList "a".toList).perform [] (first, folder)
  have hfailed : Leads arguments.keptPaths (first, folder) failed :=
    .call .none (.analyzeText "PRINT 1".toList "a".toList) [] (by decide +kernel)
  obtain ⟨⟨c, now⟩, hlast, htables, hcomplete, hfiles, hfails⟩ :
      ∃ state : Cataloger × Folder, Leads arguments.keptPaths (first, folder) state ∧
        state.1.held.knownTables = some [Text.raw "T".toList] ∧
        state.1.held.complete = false ∧ (folder.files.length, state.2.files.length) = (2, 3) ∧
        (state.1.analyzeText state.2 [] [] []).result.toOption.isNone = true :=
    ⟨_, .call hfailed (.exportTo "out".toList (some .empty)) [] (by decide +kernel),
      by decide +kernel⟩
  obtain ⟨fresh, hfresh, hresult⟩ := result_after_calls (hmake folder) hlast
  obtain rfl : fresh = first := Except.ok.inj (hfresh.symm.trans (hmake now))
  exact ⟨arguments, _, c, folder, now, hmake folder, hlast, htables, hcomplete, hfiles,
    fun today => (hresult today).1, hfails⟩

end Cataloger

end ProcCatalog
