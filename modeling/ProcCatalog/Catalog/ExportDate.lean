import ProcCatalog.Text.Digit
import ProcCatalog.Text.Pattern

/-!
# Export dates

The date of an export is the one that is given, else the one that is stamped into the name of the
script, else today's. A stamp is the first run of eight digits that begins with 20, with no further
digit beside it; one that is no date of the calendar does not count.
-/

namespace ProcCatalog.ExportDate

open Pattern

structure Date where
  year : Nat
  month : Nat
  day : Nat
  deriving DecidableEq, Repr

def isLeapYear (year : Nat) : Bool := year % 4 == 0 && (year % 100 != 0 || year % 400 == 0)

def monthLength (year month : Nat) : Nat :=
  if month = 2 then (if isLeapYear year then 29 else 28)
  else if month ∈ [4, 6, 9, 11] then 30
  else 31

def Date.isValid (d : Date) : Bool :=
  1 ≤ d.month && d.month ≤ 12 && 1 ≤ d.day && d.day ≤ monthLength d.year d.month

/-- A number with zeros in front up to a width. -/
def padded (width n : Nat) : Text :=
  let digits := Text.ofNat n
  List.replicate (width - digits.length) '0' ++ digits

def Date.write (d : Date) : Text :=
  padded 4 d.year ++ '-' :: padded 2 d.month ++ '-' :: padded 2 d.day

def stamp : Pattern :=
  all [.notBehind Text.isDigit, char '2', char '0', all (List.replicate 6 (.one Text.isDigit)),
    .notAhead (.one Text.isDigit)]

def ofDigits (digits : Text) : Date :=
  ⟨Text.numberOf (digits.take 4), Text.numberOf ((digits.drop 4).take 2),
    Text.numberOf (digits.drop 6)⟩

/-- The date that is stamped into a name. -/
def ofName? (name : Text) : Option Date :=
  ((stamp.textsIn name).head?.map ofDigits).filter Date.isValid

def resolve (explicit name today : Text) : Text :=
  if explicit.isEmpty then ((ofName? name).map Date.write).getD today else explicit

end ProcCatalog.ExportDate
