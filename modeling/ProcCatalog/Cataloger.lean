import ProcCatalog.Catalog.Basic
import ProcCatalog.Catalog.ExportDate
import ProcCatalog.Catalog.Export
import ProcCatalog.Collaborator.KnownTables
import ProcCatalog.Settings
import ProcCatalog.Source

/-!
# Catalogers

A cataloger makes catalogs of scripts under fixed settings. It reads the collaborator files when
they are first needed, and keeps what it read; a reading that failed is made anew.
-/

namespace ProcCatalog

open Storage

structure Collaborators where
  knownTables : List RawText
  crossReference : Option Collaborator.CrossReference
  deriving Repr

/-- What was read of the collaborator files. A reading that stops at the second file leaves what it
read of the first one; only a reading of both makes another one needless. -/
structure Holding where
  knownTables : Option (List RawText) := none
  crossReference : Option Collaborator.CrossReference := none
  complete : Bool := false
  deriving Repr

structure Cataloger where
  input : InputSettings := {}
  analysis : AnalysisSettings := {}
  rules : Assign.Rules := .standard
  held : Holding := {}
  deriving Repr

/-- What a run answers, what it warns of, and the cataloger after it. -/
structure Run where
  result : Outcome Catalog
  warnings : List Warning
  cataloger : Cataloger

namespace Holding

def collaborators (held : Holding) : Collaborators :=
  ⟨held.knownTables.getD [], held.crossReference⟩

/-- Reads both collaborator files, one after the other, unless that was done before. -/
def read (held : Holding) (input : InputSettings) (folder : Folder) :
    Outcome Unit × List Warning × Holding :=
  if held.complete then (.ok (), [], held)
  else
    match Collaborator.loadKnownTables folder input.tablesPath with
    | (.error fault, warnings) => (.error fault, warnings, held)
    | (.ok tables, warnings) =>
      let half := { held with knownTables := some tables }
      match Collaborator.loadCrossReference folder input.crossReferencePath with
      | (.error fault, more) => (.error fault, warnings ++ more, half)
      | (.ok reference, more) =>
        (.ok (), warnings ++ more, { half with crossReference := reference, complete := true })

end Holding

def Assign.Rules.load (folder : Folder) (path : Text) : Outcome Rules := do
  match ← folder.readValue path with
  | .obj members => ofValue (.obj members)
  | _ => throw (.invalid ("Module rules file must contain a JSON object: ".toList ++ path))

/-! ## Making -/

/-- How a new cataloger is given its rules. -/
inductive RulesGiven where
  | standard
  | chosen (rules : Assign.Rules)
  | file (path : Text)

def RulesGiven.load (folder : Folder) : RulesGiven → Outcome Assign.Rules
  | .standard => .ok .standard
  | .chosen rules => .ok rules
  | .file path => Assign.Rules.load folder path

structure Arguments where
  input : InputSettings := {}
  analysis : AnalysisSettings := {}
  rules : RulesGiven := .standard

namespace Cataloger

def make (arguments : Arguments) (folder : Folder) : Outcome Cataloger := do
  return {
    input := arguments.input
    analysis := arguments.analysis
    rules := ← arguments.rules.load folder }

/-! ## Analyzing -/

def collaboratorsFor (c : Cataloger) (folder : Folder) : Outcome Collaborators × List Warning :=
  let (result, warnings, held) := c.held.read c.input folder
  (result.map fun () => held.collaborators, warnings)

def afterReading (c : Cataloger) (folder : Folder) : Cataloger :=
  { c with held := (c.held.read c.input folder).2.2 }

/-- The catalog of some blocks. A known table with half of a surrogate pair in its name is never
referred to, so it is left out. -/
def catalogOf (c : Cataloger) (kept : Collaborators) (blocks : List Script.Block)
    (batches : Nat) (name exportDate : Text) : Outcome Catalog × List Warning :=
  let reference := kept.crossReference.getD []
  let analysis := Analyzer.analyze
    { known := .ofList (kept.knownTables.filterMap RawText.text?)
      rules := c.rules
      hints := .ofEntries reference.hints
      previewLines := c.analysis.previewLines } blocks
  let setting : Catalog.Setting :=
    { rules := c.rules
      crossReference := reference
      hotspotLimit := c.analysis.hotspotLimit
      source := name
      exportDate
      totalBatches := batches }
  (Catalog.build setting analysis, analysis.warnings)

def runOn (c : Cataloger) (folder : Folder) (today : Text) (blocks : List Script.Block)
    (batches : Nat) (name path : Text) : Run :=
  match c.analysis.problems with
  | [] =>
    match c.collaboratorsFor folder with
    | (.error fault, warnings) => ⟨.error fault, warnings, c.afterReading folder⟩
    | (.ok kept, warnings) =>
      let date := ExportDate.resolve c.input.exportDate (baseName path) today
      let (result, more) := c.catalogOf kept blocks batches name date
      ⟨result, warnings ++ more, c.afterReading folder⟩
  | problems => ⟨.error (.invalid (Text.joinWith "; ".toList problems)), [], c⟩

def analyzeText (c : Cataloger) (folder : Folder) (today text name : Text) : Run :=
  let (blocks, splitter) := Script.Splitter.split {} text
  c.runOn folder today blocks splitter.batchesSeen name name

def analyze (c : Cataloger) (folder : Folder) (today : Text) : Run :=
  let path := c.input.inputPath
  if !folder.isFile path then ⟨.error (.noInput path), [], c⟩
  else
    match (Source.ofFile path c.input.encoding).whileOpen folder (·.readBlocks {}) with
    | (.error fault, _) => ⟨.error fault, [], c⟩
    | (.ok (blocks, splitter), _) =>
      c.runOn folder today blocks splitter.batchesSeen (baseName path) path

/-! ## Exporting -/

/-- What an export answers, and the folder and the cataloger after it. -/
structure ExportRun where
  result : Outcome (List Text)
  folder : Folder
  cataloger : Cataloger

/-- Exports a catalog; if none is given, the one of the script file is made first. -/
def exportTo (c : Cataloger) (folder : Folder) (today directory : Text)
    (given : Option Catalog) : ExportRun :=
  match given with
  | some catalog =>
    let (folder, result) := catalog.exportTo directory folder
    ⟨result, folder, c⟩
  | none =>
    let run := c.analyze folder today
    match run.result with
    | .error fault => ⟨.error fault, folder, run.cataloger⟩
    | .ok catalog =>
      let (folder, result) := catalog.exportTo directory folder
      ⟨result, folder, run.cataloger⟩

end Cataloger

end ProcCatalog
