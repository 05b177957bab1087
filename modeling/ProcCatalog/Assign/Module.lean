import ProcCatalog.Assign.Rules

/-!
# Choosing a module

Four strategies, the first that answers decides: the name of the procedure, the hint of a
cross-reference, the tables it refers to by majority, and the module of all that is left.
-/

namespace ProcCatalog.Assign

/-- A code; null is no code. -/
def codeOf : Value → Option Value
  | .null => none
  | v => some v

/-! ## By name -/

def startsWithCode (name : Text) (code : Value) : Outcome Bool :=
  match code with
  | .str s => .ok ((s ++ Text.raw ['_']).isPrefixOf (Text.raw name))
  | _ => .error .wrongType

/-- The first of some codes that, followed by an underscore, begins a name. -/
def firstCode (name : Text) : List Value → Outcome (Option Value)
  | [] => .ok none
  | code :: codes => do
    if ← startsWithCode name code then return some code else firstCode name codes

def isDeleted (rules : Rules) (name : Text) : Outcome Bool :=
  if rules.deletedMarker.isTruthy then
    match rules.deletedMarker with
    | .str marker => .ok (marker.isPrefixOf (Text.raw name))
    | _ => .error .wrongType
  else .ok false

/-- The code that a name carries: the marker of deleted objects, then the module of its schema,
then the longest code that begins it. -/
def detectCode (rules : Rules) (name schema : Text) : Outcome (Option Value) := do
  if ← isDeleted rules name then return some rules.deletedMarker
  match rules.schemaModules.find? (.text schema) with
  | some code => return codeOf code
  | none =>
    match ← firstCode name (← rules.orderedCodes) with
    | none => return none
    | some code => return codeOf (← rules.canonical code)

/-! ## By hint -/

/-- Module hints by procedure names in small letters. -/
abbrev Hints := List (RawText × Value)

def putHint (key : RawText) (hint : Value) : Hints → Hints
  | [] => [(key, hint)]
  | (k, h) :: rest => if k = key then (k, hint) :: rest else (k, h) :: putHint key hint rest

def Hints.ofEntries (entries : List (RawText × Value)) : Hints :=
  entries.foldl (fun hints (name, hint) => putHint name.lower hint hints) []

def usableHint? : Value → Option Value
  | .str s => if s.isEmpty ∨ s = Text.raw uncategorized then none else some (.str s)
  | v => if v.isTruthy then some v else none

def codeOfHint (rules : Rules) (hints : Hints) (name : Text) : Outcome (Option Value) :=
  match (hints.lookup (Text.raw (Text.lower name))).bind usableHint? with
  | none => .ok none
  | some hint => (rules.canonical hint).map codeOf

/-! ## By majority of tables -/

/-- Votes by code, in the order of the first vote for each. -/
abbrev Votes := List (Value × Nat)

def castVote (code : Value) : Votes → Votes
  | [] => [(code, 1)]
  | (c, n) :: rest => if c.sameKey code then (c, n + 1) :: rest else (c, n) :: castVote code rest

def countVotes (rules : Rules) : List Text → Votes → Outcome Votes
  | [], votes => .ok votes
  | table :: tables, votes => do
    match ← detectCode rules table [] with
    | none => countVotes rules tables votes
    | some code =>
      if code.isKey then countVotes rules tables (castVote code votes) else throw .wrongType

/-- The first of the codes with the most votes. -/
def winner (votes : Votes) : Option Value :=
  (votes.find? fun (_, n) => votes.all fun (_, m) => m ≤ n).map (·.1)

def codeOfTables (rules : Rules) (tables : List Text) : Outcome (Option Value) :=
  (countVotes rules tables []).map winner

/-! ## All strategies -/

inductive Strategy where
  | name
  | crossReference
  | tableMajority
  | uncategorized
  deriving DecidableEq, Repr

def Strategy.label : Strategy → String
  | name => "prefix"
  | crossReference => "cross-reference"
  | tableMajority => "table-majority"
  | uncategorized => "uncategorized"

structure Assignment where
  code : Value
  strategy : Strategy
  deriving Repr

def assign (rules : Rules) (hints : Hints) (name schema : Text) (tables : List Text) :
    Outcome Assignment := do
  match ← detectCode rules name schema with
  | some code => return ⟨code, .name⟩
  | none =>
    match ← codeOfHint rules hints name with
    | some code => return ⟨code, .crossReference⟩
    | none =>
      match ← codeOfTables rules tables with
      | some code => return ⟨code, .tableMajority⟩
      | none => return ⟨.text uncategorized, .uncategorized⟩

end ProcCatalog.Assign
