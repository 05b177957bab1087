import ProcCatalog.Text.Blank
import ProcCatalog.Text.Digit

/-!
# Reading whole numbers

A whole number may have a sign, white space around it, and single underscores between its digits.
One with too many digits, zeros in front included, is refused.
-/

namespace ProcCatalog.Text

/-- Digits with single underscores between them; `after` tells whether a digit came last. -/
def areDigits (after : Bool) : Text → Bool
  | [] => after
  | c :: s => if c = '_' then after && areDigits false s else isDigit c && areDigits true s

/-- The number of digits up to which a whole number is read. -/
def longestNumeral : Nat := 4300

def magnitude? (s : Text) : Option Nat :=
  let digits := s.filter (· != '_')
  if areDigits false s && decide (digits.length ≤ longestNumeral) then some (numberOf digits)
  else none

/-- A blank other than the separators U+001C to U+001F. -/
def isSpace (c : Char) : Bool := isBlank c && !(28 ≤ c.toNat && c.toNat ≤ 31)

def integer? (s : Text) : Option Int :=
  match trimWith isSpace s with
  | '-' :: t => (magnitude? t).map fun n => -(n : Int)
  | '+' :: t => (magnitude? t).map fun n => (n : Int)
  | t => (magnitude? t).map fun n => (n : Int)

end ProcCatalog.Text
