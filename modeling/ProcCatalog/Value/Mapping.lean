import ProcCatalog.Fault

/-!
# Mappings and order among values

A mapping keeps its keys in the order in which they were first set. It can be made from an object
or from a row of pairs, a pair being anything with two elements.
-/

namespace ProcCatalog

namespace Value

/-- The elements of a list, the keys of an object, the code points of a text. -/
def elements? : Value → Option (List Value)
  | arr items => some items
  | obj entries => some (entries.map fun e => .str e.1)
  | str s => some (s.map fun c => .str [c])
  | _ => none

def elements (v : Value) : Outcome (List Value) :=
  match v.elements? with
  | some items => .ok items
  | none => .error .wrongType

def length (v : Value) : Outcome Nat := v.elements.map List.length

end Value

/-! ## Mappings -/

abbrev Mapping := List (Value × Value)

namespace Mapping

def put (key v : Value) : Mapping → Mapping
  | [] => [(key, v)]
  | (k, w) :: rest => if k.sameKey key then (k, v) :: rest else (k, w) :: put key v rest

def find? (m : Mapping) (key : Value) : Option Value :=
  (List.find? (fun e => e.1.sameKey key) m).map (·.2)

/-- The value of a key; lists and objects are refused as keys. -/
def lookup (m : Mapping) (key : Value) : Outcome (Option Value) :=
  if key.isKey then .ok (m.find? key) else .error .wrongType

def ofTexts (entries : List (String × String)) : Mapping :=
  entries.map fun (k, v) => (.text k.toList, .text v.toList)

def badPair (index size : Nat) : Fault :=
  .invalid ("dictionary update sequence element #".toList ++ Text.ofNat index ++
    " has length ".toList ++ Text.ofNat size ++ "; 2 is required".toList)

/-- Sets the keys of a row of pairs, the first of which has the given index. -/
def putPairs (m : Mapping) (index : Nat) : List Value → Outcome Mapping
  | [] => .ok m
  | pair :: pairs => do
    match ← pair.elements with
    | [key, v] =>
      if key.isKey then putPairs (put key v m) (index + 1) pairs else throw .wrongType
    | parts => throw (badPair index parts.length)

/-- Sets what a value maps. -/
def update (m : Mapping) : Value → Outcome Mapping
  | .obj entries => .ok (entries.foldl (fun m (k, v) => put (.str k) v m) m)
  | v => do m.putPairs 0 (← v.elements)

def ofValue (v : Value) : Outcome Mapping := update [] v

/-- A key as the name of a member; one that is no text is named as it is written. -/
def keyText : Value → RawText
  | .str s => s
  | .bool b => if b then "true".toList else "false".toList
  | .int n => Text.ofInt n
  | .real x => x.write
  | _ => "null".toList

def toValue (m : Mapping) : Value := .obj (m.map fun (k, v) => (keyText k, v))

end Mapping

/-! ## Order -/

/-- Where a number lies: at a fraction, or on the side of all fractions that an infinite one has. -/
structure Place where
  side : Int := 0
  num : Int := 0
  den : Nat := 1
  deriving DecidableEq, Repr

def Place.le (p q : Place) : Bool :=
  decide (p.side < q.side) || (p.side == q.side && decide (p.num * q.den ≤ q.num * p.den))

def RealNumber.place? : RealNumber → Option Place
  | finite negative d =>
    let (num, den) := d.fraction
    some { num := if negative then -num else num, den }
  | infinite negative => some { side := if negative then -1 else 1 }
  | notANumber => none

namespace Value

def isNumber : Value → Bool
  | bool _ | int _ | real _ => true
  | _ => false

def place? : Value → Option Place
  | bool b => some { num := if b then 1 else 0 }
  | int n => some { num := n }
  | real x => x.place?
  | _ => none

def text? : Value → Option RawText
  | str s => some s
  | _ => none

/-- The order among texts and among numbers. -/
def keyLe (v w : Value) : Bool :=
  match v, w with
  | str s, str t => RawText.le s t
  | v, w =>
    match v.place?, w.place? with
    | some p, some q => p.le q
    | _, _ => false

/-- Values in ascending order; texts and numbers are not compared with one another. -/
def sorted (vs : List Value) : Outcome (List Value) :=
  if vs.length ≤ 1 ∨ vs.all (fun v => v.text?.isSome) ∨ vs.all isNumber then .ok (sortBy keyLe vs)
  else .error .wrongType

def lower : Value → Outcome RawText
  | str s => .ok s.lower
  | _ => .error .noSuchMember

end Value

end ProcCatalog
