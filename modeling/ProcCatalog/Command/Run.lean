import ProcCatalog.Cataloger
import ProcCatalog.Command.Options
import ProcCatalog.Report.Views

/-!
# Commands

Five commands make a catalog of a script and show a part of it; the first of them also exports it.
Faults of usage end with code two, others with code one.
-/

namespace ProcCatalog.Command

open Report (Item Printout)
open Storage (Folder)

/-! ## The commands and their options -/

inductive Name where
  | scan
  | modules
  | procedures
  | show
  | callgraph
  deriving DecidableEq, Repr

def Name.all : List Name := [.scan, .modules, .procedures, .show, .callgraph]

def Name.label : Name → String
  | .scan => "scan"
  | .modules => "modules"
  | .procedures => "procedures"
  | .show => "show"
  | .callgraph => "callgraph"

def Name.ofText? (s : Text) : Option Name := Name.all.find? fun n => n.label.toList == s

def sourceOptions : List OptionSpec := [
    ⟨"verbose", some 'v', .flag, false⟩,
    ⟨"export-date", none, .text, false⟩,
    ⟨"preview-lines", none, .integer, false⟩,
    ⟨"workers", some 'w', .integer, false⟩,
    ⟨"module-rules", some 'm', .text, false⟩,
    ⟨"cross-reference", some 'x', .text, false⟩,
    ⟨"tables", some 't', .text, false⟩,
    ⟨"encoding", some 'e', .text, false⟩,
    ⟨"input", some 'i', .text, true⟩
  ]

def helpOption : OptionSpec := ⟨"help", none, .flag, false⟩

def versionOption : OptionSpec := ⟨"version", none, .flag, false⟩

def Name.ownOptions : Name → List OptionSpec
  | .scan => [⟨"output", some 'o', .text, false⟩, ⟨"quiet", some 'q', .flag, false⟩]
  | .modules => []
  | .procedures => [
      ⟨"module", none, .text, false⟩,
      ⟨"complexity", some 'c', .choice (Body.Tier.all.map (·.label)), false⟩,
      ⟨"limit", some 'n', .integer, false⟩]
  | .show => [⟨"name", some 'n', .text, true⟩, ⟨"body", none, .flag, false⟩]
  | .callgraph => []

def Name.options (name : Name) : List OptionSpec :=
  sourceOptions ++ name.ownOptions ++ [helpOption]

/-! ## Results -/

inductive Ending where
  | done
  | stopped
  | idle
  | misused (fault : UsageFault)
  | failed (fault : Fault)
  deriving DecidableEq, Repr

def Ending.exitCode : Ending → Nat
  | .done => 0
  | .stopped => 1
  | .idle => 2
  | .misused _ => 2
  | .failed _ => 1

structure Result where
  ending : Ending
  items : List Item := []
  warnings : List Warning := []
  folder : Folder
  output : Text := []
  deriving Repr

def errorItem (text : Text) : Item := .text ("[red]Error:[/red] ".toList ++ text)

/-! ## Preparation -/

/-- A cataloger, or all that is wrong with the options. -/
def prepare (g : Given) (folder : Folder) : Outcome (Except (List Text) Cataloger) := do
  let encoding := g.text "encoding"
  let input : InputSettings :=
    { inputPath := g.text "input"
      encoding := if encoding.isEmpty then "utf-16".toList else encoding
      tablesPath := g.text "tables"
      crossReferencePath := g.text "cross-reference"
      exportDate := g.text "export-date" }
  let analysis : AnalysisSettings :=
    { previewLines := g.integer "preview-lines" 20, workers := g.integer "workers" 1 }
  let problems := (← input.problems folder) ++ analysis.problems
  let rulesPath := g.text "module-rules"
  if rulesPath.isEmpty then
    return if problems.isEmpty then .ok { input, analysis } else .error problems
  else
    match Assign.Rules.load folder rulesPath with
    | .ok rules =>
      return if problems.isEmpty then .ok { input, analysis, rules } else .error problems
    | .error fault =>
      if fault.isSystemFault || fault.isValueFault then
        return .error (problems ++ ["Could not load module rules: ".toList ++ fault.message])
      else throw fault

def resultOf (p : Printout) (warnings : List Warning) (folder : Folder) : Result :=
  { ending := p.fault.elim .done .failed, items := p.items, warnings, folder }

def withCatalog (g : Given) (folder : Folder) (today : Text)
    (next : Catalog → List Warning → Result) : Result :=
  match prepare g folder with
  | .error fault => { ending := .failed fault, folder }
  | .ok (.error problems) => { ending := .stopped, items := problems.map errorItem, folder }
  | .ok (.ok cataloger) =>
    let run := cataloger.analyze folder today
    match run.result with
    | .ok catalog => next catalog run.warnings
    | .error fault =>
      if fault.isSystemFault || fault.isCodecFault then
        { ending := .stopped
          items := [errorItem ("Could not read ".toList ++ cataloger.input.inputPath ++
            ": ".toList ++ fault.message)]
          warnings := run.warnings
          folder }
      else { ending := .failed fault, warnings := run.warnings, folder }

/-! ## Running -/

def savedItems (paths : List Text) : List Item := [
    .text ("\n[green]Catalog saved to:[/green] ".toList ++ paths.headD []),
    .text ("[green]Module body files:[/green] ".toList ++ Text.ofNat (paths.length - 1))
  ]

def scan (g : Given) (folder : Folder) (today : Text) : Result :=
  withCatalog g folder today fun catalog warnings =>
    match catalog.exportTo (g.text "output" "generated".toList) folder with
    | (folder, .error fault) => { ending := .failed fault, warnings, folder }
    | (folder, .ok paths) =>
      let report : Printout := if g.has "quiet" then {} else Report.summary catalog
      resultOf (report.andThen ⟨savedItems paths, none⟩) warnings folder

def selection (g : Given) : Report.Selection :=
  { module := g.text "module", tier := g.text "complexity", limit := g.integer "limit" 30 }

/-- Shows every procedure of a name; there has to be one. -/
def showProcedures (g : Given) (folder : Folder) (catalog : Catalog) (warnings : List Warning) :
    Result :=
  match catalog.find (g.text "name") with
  | [] =>
    { ending := .stopped
      items := [errorItem ("Procedure not found: ".toList ++ g.text "name")]
      warnings
      folder }
  | ps =>
    resultOf (.concat (ps.map fun p => Report.procedure p (g.has "body"))) warnings folder

def perform (name : Name) (g : Given) (folder : Folder) (today : Text) : Result :=
  match name with
  | .scan => scan g folder today
  | .modules =>
    withCatalog g folder today fun c warnings => resultOf (Report.modules c) warnings folder
  | .procedures =>
    withCatalog g folder today fun c warnings =>
      resultOf (Report.procedures c (selection g)) warnings folder
  | .show => withCatalog g folder today (showProcedures g folder)
  | .callgraph =>
    withCatalog g folder today fun c warnings => resultOf (Report.callGraph c) warnings folder

def misused (fault : UsageFault) (folder : Folder) : Result := { ending := .misused fault, folder }

def runNamed (name : Name) (arguments : List Text) (folder : Folder) (today : Text) : Result :=
  match readArguments name.options true arguments with
  | .error fault => misused fault folder
  | .ok g =>
    if g.has helpOption.name then { ending := .done, folder }
    else
      match g.checkAll name.options with
      | .error fault => misused fault folder
      | .ok () => perform name g folder today

def versionLine : Text := "sprocforensic, version 1.0.0\n".toList

def mainOptions : List OptionSpec := [versionOption, helpOption]

/-- The result of an option that stands before all commands. -/
def answerOption (o : OptionSpec) (folder : Folder) : Result :=
  { ending := .done, folder, output := if o = versionOption then versionLine else [] }

/-- A word that is no command. It may be an option that was not taken for one because two dashes
stand before it. -/
def runUnknown (word : Text) (arguments : List Text) (folder : Folder) : Result :=
  match readArguments mainOptions false arguments with
  | .error fault => misused fault folder
  | .ok g =>
    match g.options with
    | (o, _) :: _ => answerOption o folder
    | [] =>
      let similar := Text.similarTo word (Name.all.map fun n => n.label.toList)
      misused (.noSuchCommand word similar) folder

def run (arguments : List Text) (folder : Folder) (today : Text) : Result :=
  match readArguments mainOptions false arguments with
  | .error fault => misused fault folder
  | .ok g =>
    if arguments.isEmpty then { ending := .idle, folder }
    else
      match g.options, g.others with
      | (o, _) :: _, _ => answerOption o folder
      | [], [] => misused .commandMissing folder
      | [], word :: rest =>
        match Name.ofText? word with
        | some name => runNamed name rest folder today
        | none => runUnknown word g.others folder

def filesNeeded (arguments : List Text) : List Text :=
  match arguments with
  | [] => []
  | word :: rest =>
    match (Name.ofText? word).map fun name => readArguments name.options true rest with
    | some (.ok g) => ["input", "tables", "cross-reference", "module-rules"].filterMap g.value?
    | _ => []

end ProcCatalog.Command
