import ProcCatalog.Value.Mapping

/-!
# Module rules

The tables that drive the choice of a module: name prefixes, aliases and display names of module
codes, the marker of deleted objects, and schemas that are modules of their own. Rules are read
from documents, and a code may be any value; one of the wrong kind is refused where it is used.
-/

namespace ProcCatalog.Assign

def uncategorized : Text := "(uncategorized)".toList

structure Rules where
  codes : List Value
  aliases : Mapping
  displayNames : Mapping
  deletedMarker : Value
  schemaModules : Mapping
  deriving Repr

namespace Rules

/-! ## Defaults -/

def defaultCodes : List String := [
    "MYEVAL", "MYEval", "MyEvals", "MyEval", "MyGME", "MyGme", "MYGME", "ACGME", "EVAL", "Eval",
    "eval", "SEC", "Sec", "sec", "DH", "PRC", "prc", "Prc", "APE2", "APE", "BSN", "ACT", "PF",
    "OBC", "CME", "Prep", "PTL", "ptl", "RPT", "QUIZ", "Quiz", "SCHE", "SYS", "POST", "LA"
  ]

def defaultAliases : List (String × String) := [
    ("Eval", "EVAL"), ("eval", "EVAL"), ("Sec", "SEC"), ("sec", "SEC"), ("prc", "PRC"),
    ("Prc", "PRC"), ("MYEval", "MYEVAL"), ("MyEval", "MYEVAL"), ("MyEvals", "MYEVAL"),
    ("MyGme", "MyGME"), ("MYGME", "MyGME"), ("Quiz", "QUIZ"), ("ptl", "PTL")
  ]

def defaultDisplayNames : List (String × String) := [
    ("SEC", "Security"), ("EVAL", "Evaluations"), ("DH", "Duty Hours"), ("PRC", "Procedures"),
    ("APE", "Annual Program Evaluation"), ("APE2", "APE v2"), ("BSN", "Nursing"),
    ("ACT", "Activity Logs"), ("PF", "Portfolio"), ("OBC", "Clinical Assessment"),
    ("CME", "CME Credits"), ("Prep", "Prep/Onboarding"), ("PTL", "Patient Logs"),
    ("RPT", "Reports"), ("QUIZ", "Quizzes"), ("SCHE", "Scheduling"), ("SYS", "System"),
    ("MYEVAL", "MyEval Platform"), ("POST", "Post-Graduation"), ("MyGME", "MyGME Integration"),
    ("LA", "Learning Activities"), ("ACGME", "ACGME"), ("_DEL_", "Soft-Deleted"),
    ("perf", "Performance Schema"), ("(uncategorized)", "Uncategorized")
  ]

def defaultMarker : Value := .text "_DEL_".toList

def defaultSchemaModules : Mapping := .ofTexts [("perf", "perf")]

def standard : Rules where
  codes := defaultCodes.map fun c => .text c.toList
  aliases := .ofTexts defaultAliases
  displayNames := .ofTexts defaultDisplayNames
  deletedMarker := defaultMarker
  schemaModules := defaultSchemaModules

/-! ## Reading -/

/-- Rules from an object; each missing part is the standard one, and display names are added to
the standard ones. -/
def ofValue : Value → Outcome Rules
  | .obj entries => do
    let part (key : String) : Option Value := entries.lookup (Text.raw key.toList)
    let displayNames ← Mapping.update (.ofTexts defaultDisplayNames)
      ((part "display_names").getD (.obj []))
    let codes ← (part "prefixes").elim (.ok standard.codes) Value.elements
    let aliases ← (part "aliases").elim (.ok standard.aliases) Mapping.ofValue
    let schemaModules ← (part "schema_modules").elim (.ok defaultSchemaModules) Mapping.ofValue
    return {
      codes, aliases, displayNames, schemaModules
      deletedMarker := (part "deleted_marker").getD defaultMarker }
  | _ => .error .noSuchMember

/-! ## Look-up -/

def pairLengths : List Value → Outcome (List (Nat × Value))
  | [] => .ok []
  | v :: vs => do
    let n ← v.length
    return (n, v) :: (← pairLengths vs)

/-- The longest codes first; codes of one length keep their order. -/
def orderedCodes (rules : Rules) : Outcome (List Value) := do
  let pairs ← pairLengths rules.codes
  return (sortBy (fun a b => decide (b.1 ≤ a.1)) pairs).map (·.2)

/-- The code that a spelling stands for. -/
def canonical (rules : Rules) (code : Value) : Outcome Value :=
  (rules.aliases.lookup code).map (·.getD code)

def displayName (rules : Rules) (code : Value) : Outcome Value :=
  (rules.displayNames.lookup code).map (·.getD code)

end Rules

end ProcCatalog.Assign
