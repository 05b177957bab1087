import ProcCatalog.Number.Shortest
import ProcCatalog.Text.CodePoint

/-!
# Document values

What a JSON document holds. An object keeps the order of its keys. A number with a fraction or an
exponent is rounded to a double.
-/

namespace ProcCatalog

/-- A number that is not written as a whole one. -/
inductive RealNumber where
  | finite (negative : Bool) (magnitude : Number.Double)
  | infinite (negative : Bool)
  | notANumber
  deriving DecidableEq, Repr

namespace RealNumber

/-- The double that a magnitude rounds to, if it is not too large. The place of the first digit
decides where it is far outside the range of doubles. -/
def toDouble (d : Number.Decimal) : Option Number.Double :=
  let place := (Nat.toDigits 10 d.digits).length + d.exponent
  if d.digits = 0 ∨ place < -323 then some .zero
  else if 309 < place then none
  else
    let (num, den) := Number.powerPair 10 d.exponent
    Number.Double.nearest (d.digits * num) den

/-- A magnitude too large for a double is infinite. -/
def ofDecimal (negative : Bool) (d : Number.Decimal) : RealNumber :=
  match toDouble d with
  | some double => .finite negative double
  | none => .infinite negative

def isZero : RealNumber → Bool
  | .finite _ d => d.significand == 0
  | _ => false

def write : RealNumber → Text
  | .finite negative d => (if negative then ['-'] else []) ++ d.shortest.write
  | .infinite negative => if negative then "-Infinity".toList else "Infinity".toList
  | .notANumber => "NaN".toList

/-- The whole number with the same value. -/
def toInt? : RealNumber → Option Int
  | .finite negative d =>
    let (num, den) := d.fraction
    if num % den = 0 then some (if negative then -(num / den : Nat) else (num / den : Nat))
    else none
  | _ => none

end RealNumber

inductive Value where
  | null
  | bool (b : Bool)
  | int (n : Int)
  | real (x : RealNumber)
  | str (s : RawText)
  | arr (items : List Value)
  | obj (entries : List (RawText × Value))
  deriving Repr

namespace Value

instance : Inhabited Value := ⟨.null⟩

def text (s : Text) : Value := .str s

/-- Neither null, false, zero nor empty. -/
def isTruthy : Value → Bool
  | null => false
  | bool b => b
  | int n => n != 0
  | real x => !x.isZero
  | str s => !s.isEmpty
  | arr items => !items.isEmpty
  | obj entries => !entries.isEmpty

def member? (key : Text) : Value → Option Value
  | obj entries => entries.lookup (Text.raw key)
  | _ => none

/-! ## Values as keys -/

/-- Lists and objects cannot serve as keys. -/
def isKey : Value → Bool
  | arr _ | obj _ => false
  | _ => true

/-- The whole number that a boolean or a number stands for. -/
def asInt? : Value → Option Int
  | bool b => some (if b then 1 else 0)
  | int n => some n
  | real x => x.toInt?
  | _ => none

/-- Two values are one key. Numbers and booleans are compared as numbers. -/
def sameKey (v w : Value) : Bool :=
  match v.asInt?, w.asInt? with
  | some m, some n => m == n
  | none, none =>
    match v, w with
    | null, null => true
    | str s, str t => s == t
    | real x, real y => x == y
    | _, _ => false
  | _, _ => false

end Value

end ProcCatalog
