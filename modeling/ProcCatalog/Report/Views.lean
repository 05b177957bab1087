import ProcCatalog.Catalog.Document
import ProcCatalog.Report.Count
import ProcCatalog.Report.Item
import ProcCatalog.Report.Markup
import ProcCatalog.Value.Display

/-!
# Views of a catalog

What is printed about a catalog: a summary, its modules, its procedures, one procedure, and its
call graph.
-/

namespace ProcCatalog.Report

def cellOf : Value → Outcome RawText
  | .str s => .ok s
  | .null => .ok []
  | _ => .error .notPrintable

def number (n : Int) : Text := Text.ofInt n

def alarm (n : Nat) : Text := if n = 0 then ['0'] else styled "red".toList (Text.ofNat n)

def bold (s : String) : Text := "[bold]".toList ++ s.toList ++ "[/bold]".toList

def lines (ls : List Text) : Text := Text.joinWith ['\n'] ls

/-! ## Summary -/

def header (c : Catalog) : Item :=
  .panel (lines [
      "[bold white]SprocForensic Catalog[/]".toList,
      "Source: ".toList ++ c.source,
      "Export date: ".toList ++ c.exportDate
    ]) none "bold blue"

def totals (c : Catalog) : Outcome Item := do
  let batches ← count c.totalBatches
  let blocks ← count c.candidateBlocks
  let procedures ← count c.totalProcedures
  return .table "Extraction Summary".toList [⟨"Metric", .left⟩, ⟨"Count", .right⟩] [
      ["Batches".toList, batches],
      ["Procedure blocks".toList, blocks],
      ["Parsed procedures".toList, procedures],
      ["Parse failures".toList, alarm c.parseFailures],
      ["Modules".toList, Text.ofNat c.listings.length]
    ]

def listingRow (l : Listing) : Outcome (List RawText) := do
  let heavy := l.procedures.countP fun p => p.tier.isHeavy
  let lineCount ← count (total (l.procedures.map (·.lineCount)) : Nat)
  let code ← cellOf l.code
  let name ← cellOf l.displayName
  return [code, name, Text.ofNat l.procedures.length, alarm heavy, lineCount]

def listings (c : Catalog) : Outcome Item := do
  let rows ← c.listings.mapM listingRow
  return .table ("Modules (".toList ++ Text.ofNat c.listings.length ++ [')'])
    [⟨"Prefix", .left⟩, ⟨"Module", .left⟩, ⟨"Procedures", .right⟩, ⟨"Complex+", .right⟩,
      ⟨"Lines", .right⟩] rows

/-- A label in its colour and its count; nothing where there is none. -/
def tallyCells (color : Text → Text) : Option (Text × Nat) → List RawText
  | none => [[], []]
  | some (label, n) =>
    [if label.isEmpty then [] else Text.raw (styled (color label) label), Text.ofNat n]

def distribution (stats : Option Stats) : Item :=
  let intents := stats.elim [] (·.byIntent)
  let tiers := stats.elim [] (·.byTier)
  let rows := (List.range (max intents.length tiers.length)).map fun i =>
    tallyCells intentColor intents[i]? ++ tallyCells tierColor tiers[i]?
  .table "Distribution".toList
    [⟨"CRUD Type", .left⟩, ⟨"Count", .right⟩, ⟨"Complexity", .left⟩, ⟨"Count", .right⟩] rows

def antiPatterns (stats : Option Stats) : Outcome (List Item) :=
  match stats with
  | none => .ok []
  | some s => do
    let rows ← s.flagCounts.mapM fun (label, n) => do return [Text.raw label, Text.raw (← count n)]
    return [.table "Anti-Patterns".toList [⟨"Pattern", .left⟩, ⟨"Procedures", .right⟩] rows]

def hotspots (graph : Option CallGraph.Summary) : List Item :=
  match graph.elim [] (·.hotspots) with
  | [] => []
  | hs =>
    [.table "Most Called Procedures".toList
      [⟨"Procedure", .left⟩, ⟨"Callers", .right⟩, ⟨"Transitive", .right⟩]
      (hs.map fun h =>
        [h.schema ++ '.' :: h.name, Text.ofNat h.callers, Text.ofNat h.transitiveCallers])]

def one (item : Outcome Item) : Printout := .ofOutcome (item.map fun i => [i])

def modules (c : Catalog) : Printout := one (listings c)

def summary (c : Catalog) : Printout :=
  .concat [.ofItem (header c), one (totals c), modules c, .ofItem (distribution c.stats),
    .ofOutcome (antiPatterns c.stats), .ofOutcome (.ok (hotspots c.callGraph))]

/-! ## Procedures -/

/-- Which procedures are listed, and how many of them. -/
structure Selection where
  module : RawText := []
  tier : Text := []
  limit : Int := 30
  deriving DecidableEq, Repr

def filterModule (module : RawText) : List Procedure → Outcome (List Procedure)
  | [] => .ok []
  | p :: ps => do
    let isOfModule := (← p.moduleCode.lower) == module.lower
    let rest ← filterModule module ps
    return if isOfModule then p :: rest else rest

def selectModule (module : RawText) (ps : List Procedure) : Outcome (List Procedure) :=
  if module.isEmpty then .ok ps else filterModule module ps

def selectTier (tier : Text) (ps : List Procedure) : List Procedure :=
  if tier.isEmpty then ps else ps.filter fun p => p.tier.label.toList == tier

/-- The most complex first, then the longest. -/
def heavierFirst (p q : Procedure) : Bool :=
  q.tier.rank < p.tier.rank || (p.tier.rank == q.tier.rank && q.lineCount ≤ p.lineCount)

def intentText (i : Body.Intent) : Text := styled (intentColor i.label.toList) i.label.toList

def tierText (t : Body.Tier) : Text := styled (tierColor t.label.toList) t.label.toList

def procedureRow (p : Procedure) : Outcome (List RawText) := do
  let module ← cellOf p.moduleCode
  return [p.fullName, module, intentText p.intent, tierText p.tier, Text.ofNat p.lineCount,
    Text.ofNat p.tables.length, shortened 60 (flagList p.profile.entries)]

def procedures (c : Catalog) (s : Selection) : Printout := one do
  let ps := selectTier s.tier (← selectModule s.module c.procedures)
  let rows ← (upTo s.limit (sortBy heavierFirst ps)).mapM procedureRow
  return .table ("Stored Procedures (".toList ++ Text.ofNat ps.length ++ [')'])
    [⟨"Name", .left⟩, ⟨"Module", .left⟩, ⟨"CRUD", .left⟩, ⟨"Complexity", .left⟩,
      ⟨"Lines", .right⟩, ⟨"Tables", .right⟩, ⟨"Anti-Patterns", .left⟩] rows

/-! ## One procedure -/

def facts (p : Procedure) : Item :=
  .panel (Text.raw ("[bold]".toList ++ p.fullName ++ "[/bold]\nModule: ".toList) ++
    p.moduleCode.display ++ Text.raw (lines [
      " (".toList ++ p.moduleStrategy.label.toList ++ [')'],
      "CRUD: ".toList ++ intentText p.intent,
      "Complexity: ".toList ++ tierText p.tier,
      "Lines: ".toList ++ Text.ofNat p.lineCount ++ " (starts at line ".toList ++
        Text.ofInt p.startLine ++ [')']
    ])) (some "Procedure") "none"

def parameterRow (p : Signature.Parameter) : List RawText :=
  [p.name, p.dataType ++ (if p.readonly then " READONLY".toList else []),
    p.direction.label.toList, p.default.getD []]

def parameters (ps : List Signature.Parameter) : List Item :=
  if ps.isEmpty then []
  else
    [.table "Parameters".toList
      [⟨"Name", .left⟩, ⟨"Type", .left⟩, ⟨"Direction", .left⟩, ⟨"Default", .left⟩]
      (ps.map parameterRow)]

def listItem (label : String) (values : List RawText) : List Item :=
  if values.isEmpty then []
  else [.text (Text.raw (bold (label ++ ":") ++ [' ']) ++
    Text.joinWith (Text.raw ", ".toList) values)]

def textOf : Value → Outcome RawText
  | .str s => .ok s
  | _ => .error .wrongType

/-- A control character that moves the cursor elsewhere than to the next line, or rings. -/
def isDroppedControl (c : Char) : Bool := [7, 8, 11, 12, 13].contains c.toNat

def withoutControls (s : Text) : Text := s.filter fun c => !isDroppedControl c

def procedure (p : Procedure) (withBody : Bool) : Printout :=
  let flags := flagList p.profile.entries
  let shown := if flags.isEmpty then Text.raw "none".toList else flags
  .concat [
    .ofItem (facts p),
    .ofOutcome (.ok (parameters p.parameters)),
    .ofItem (.text (Text.raw ('\n' :: bold "Anti-patterns:" ++ [' ']) ++ shown)),
    .ofOutcome (.ok (if p.profile.nolockCount = 0 then []
      else [.text (bold "NOLOCK hints:" ++ ' ' :: Text.ofNat p.profile.nolockCount)])),
    .ofOutcome (.ok (listItem "Tables" (p.tables.map Text.raw))),
    .ofOutcome (.ok (listItem "Calls" (p.calls.map Text.raw))),
    .ofOutcome (.ok (listItem "Called by procedures" (p.procedureCallers.map Text.raw))),
    .ofOutcome ((p.codeCallers.mapM textOf).map (listItem "Called from code")),
    .ofOutcome (.ok (if withBody then [.panel (withoutControls p.body) (some "Body") "none"]
      else []))]

/-! ## The call graph -/

def cycleRow (cycle : List Text) : List RawText :=
  [Text.raw (Text.joinWith " -> ".toList (cycle ++ cycle.take 1))]

def callGraph (c : Catalog) : Printout :=
  let edges := c.callGraph.elim 0 (·.edges)
  let cycles := c.callGraph.elim [] (·.cycles)
  let unresolved := c.callGraph.elim [] (·.unresolvedCalls)
  .concat [
    .ofItem (.panel (lines [
        bold "Call edges:" ++ ' ' :: Text.ofNat edges,
        bold "Cycles:" ++ ' ' :: Text.ofNat cycles.length,
        bold "Unresolved calls:" ++ ' ' :: Text.ofNat unresolved.length
      ]) (some "Call Graph") "none"),
    .ofOutcome (.ok (if cycles.isEmpty then []
      else [.table ("Recursive Call Cycles (".toList ++ Text.ofNat cycles.length ++ [')'])
        [⟨"Cycle", .left⟩] (cycles.map cycleRow)])),
    .ofOutcome (.ok (hotspots c.callGraph)),
    .ofOutcome (.ok (if unresolved.isEmpty then []
      else [.text (Text.raw ('\n' :: bold "Not in dump:" ++ [' ']) ++
        shortened 200 (Text.raw (Text.joinWith ", ".toList unresolved)))]))]

end ProcCatalog.Report
