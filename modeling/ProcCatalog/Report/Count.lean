import ProcCatalog.Value.Display
import ProcCatalog.Fault

/-!
# Counts in reports

A count of ten thousand or more is shown in thousands, one of a million or more in millions, with
one place behind the point. The quotient is rounded to a double first, and that to one place.
Smaller counts have a comma before every three digits.
-/

namespace ProcCatalog.Report

/-- Puts a comma before every three digits from the end. -/
def grouped (digits : Text) : Text :=
  (go 0 digits.reverse).reverse
where
  go : Nat → Text → Text
    | _, [] => []
    | n, c :: s => if n = 3 then ',' :: c :: go 1 s else c :: go (n + 1) s

def oneDecimal (d : Number.Double) : Text :=
  Text.ofNat (d.tenths / 10) ++ '.' :: Text.ofNat (d.tenths % 10)

def scaledCount (count unit : Nat) (suffix : Char) : Outcome Text :=
  match Number.Double.nearest count unit with
  | none => .error .tooLarge
  | some d => .ok (oneDecimal d ++ [suffix])

def count : Int → Outcome Text
  | .ofNat n =>
    if 1000000 ≤ n then scaledCount n 1000000 'M'
    else if 10000 ≤ n then scaledCount n 1000 'K'
    else .ok (grouped (Text.ofNat n))
  | .negSucc n => .ok ('-' :: grouped (Text.ofNat (n + 1)))

def countOrNone (n : Option Int) : Outcome Text := n.elim (.ok "N/A".toList) count

/-! ## Counts that are no whole numbers -/

/-- A double divided by a unit. -/
def scaledReal (d : Number.Double) (unit : Nat) (suffix : Char) : Text :=
  let quotient := Number.Double.nearest d.fraction.1 (d.fraction.2 * unit)
  oneDecimal (quotient.getD d) ++ [suffix]

/-- Puts commas into the digits at the front. -/
def groupedFront (s : Text) : Text :=
  grouped (s.takeWhile Char.isDigit) ++ s.dropWhile Char.isDigit

def realCount : RealNumber → Text
  | .finite false d =>
    let (num, den) := d.fraction
    if 1000000 * den ≤ num then scaledReal d 1000000 'M'
    else if 10000 * den ≤ num then scaledReal d 1000 'K'
    else groupedFront d.shortest.write
  | .finite true d => '-' :: groupedFront d.shortest.write
  | .infinite false => "infM".toList
  | x => x.display

end ProcCatalog.Report
