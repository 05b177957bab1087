import ProcCatalog.Assign.Module
import ProcCatalog.Body.Complexity
import ProcCatalog.Body.Intent
import ProcCatalog.Body.Reference
import ProcCatalog.Signature.Header
import ProcCatalog.Text.Line
import ProcCatalog.Warning

/-!
# Classified procedures

A block becomes a procedure with all that follows from its text. A block that names no procedure
is a failure; so is one that the rules or hints cannot be applied to, which is also warned of.
-/

namespace ProcCatalog

structure Procedure where
  schema : Text
  name : Text
  parameters : List Signature.Parameter := []
  body : Text := []
  lineCount : Nat := 0
  preview : Text := []
  tables : List Text := []
  calls : List Text := []
  intent : Body.Intent := .mixed
  profile : Body.Profile := {}
  tier : Body.Tier := .trivial
  moduleCode : Value := .str []
  moduleStrategy : Assign.Strategy := .uncategorized
  codeCallers : List Value := []
  procedureCallers : List Text := []
  startLine : Int := 1
  deriving Repr

namespace Procedure

def fullName (p : Procedure) : Text := p.schema ++ '.' :: p.name

/-- Procedures are listed by name and then by schema, first without regard to case. -/
def sortKey (p : Procedure) : List Text :=
  [Text.lower p.name, p.name, Text.lower p.schema, p.schema]

def listedBefore (p q : Procedure) : Bool := lexLe Text.le p.sortKey q.sortKey

end Procedure

/-! ## Analysis -/

structure Analyzer where
  known : Body.KnownTables := .none
  rules : Assign.Rules := .standard
  hints : Assign.Hints := []
  previewLines : Int := 20

structure Analysis where
  procedures : List Procedure
  parseFailures : Nat
  blocks : Nat
  warnings : List Warning

namespace Analyzer

open Signature (Definition)

def classify (a : Analyzer) (d : Definition) : Outcome Procedure := do
  let stripped := Sql.stripComments d.body
  let profile := Body.Profile.detect stripped
  let tables := Body.tables a.known stripped
  let lineCount := Text.lineCount d.body
  let module ← Assign.assign a.rules a.hints d.name d.schema tables
  return {
    schema := d.schema
    name := d.name
    parameters := d.parameters
    body := d.body
    lineCount
    preview := Text.preview a.previewLines d.body
    tables
    calls := Body.calls d.name stripped
    intent := Body.intentOf d.name stripped
    profile
    tier := Body.Tier.classify lineCount tables.length profile
    moduleCode := module.code
    moduleStrategy := module.strategy
    startLine := d.startLine }

/-- The procedure of a block, or the warning that comes with a failure, if there is one. -/
def analyzeBlock (a : Analyzer) (block : Script.Block) : Except (Option Warning) Procedure :=
  match Definition.parse? block.text block.startLine with
  | none => .error none
  | some d => (a.classify d).mapError fun _ => some (.blockSkipped block.startLine)

def analyze (a : Analyzer) (blocks : List Script.Block) : Analysis :=
  let results := blocks.map a.analyzeBlock
  { procedures := results.filterMap fun r => r.toOption
    parseFailures := results.countP fun r => !r.isOk
    blocks := blocks.length
    warnings := results.filterMap fun
      | .error warning => warning
      | .ok _ => none }

end Analyzer

end ProcCatalog
