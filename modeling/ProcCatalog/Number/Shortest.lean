import ProcCatalog.Number.Double

/-!
# The shortest decimal of a double

Of the decimals that round to a double, the one with the fewest digits is taken, and of several
with that number of digits the nearest; of two that are equally near, the even one. With one to
seventeen digits, the two neighbours of the value on the grid of that many digits are tried.
-/

namespace ProcCatalog.Number

/-- The number `digits · 10 ^ exponent`. -/
structure Decimal where
  digits : Nat
  exponent : Int
  deriving DecidableEq, Repr

def powerPair (base : Nat) (exponent : Int) : Nat × Nat :=
  if 0 ≤ exponent then (Nat.pow base exponent.toNat, 1) else (1, Nat.pow base (-exponent).toNat)

/-- The exponent of the power of ten that leads the decimal form of a positive fraction. -/
def leadingExponent (num den : Nat) : Int :=
  if den ≤ num then (Nat.toDigits 10 (num / den)).length - 1
  else
    let length := (Nat.toDigits 10 (den / num)).length
    if den ≤ num * Nat.pow 10 (length - 1) then 1 - length else -length

namespace Double

/-- The nearest decimal with `count` digits, if it or its neighbour rounds to the double. -/
def decimalOfLength (d : Double) (count : Nat) : Option Decimal :=
  let (un, ud) := powerPair 2 (d.exponent - 2)
  let value := 4 * d.significand
  let low := if d.significand = leastNormal ∧ -1074 < d.exponent then value - 1 else value - 2
  let high := value + 2
  let k := leadingExponent (value * un) ud - count + 1
  let (pn, pd) := powerPair 10 k
  let onScale (x : Nat) : Nat := x * un * pd
  let on (c : Nat) : Nat := c * pn * ud
  let rounds (c : Nat) : Bool :=
    if d.significand % 2 = 0 then onScale low ≤ on c && on c ≤ onScale high
    else onScale low < on c && on c < onScale high
  let below := onScale value / (pn * ud)
  let above := below + 1
  let fromBelow := onScale value - on below
  let toAbove := on above - onScale value
  let belowIsNearer := fromBelow < toAbove || (fromBelow == toAbove && below % 2 == 0)
  if rounds below && (!rounds above || belowIsNearer) then some ⟨below, k⟩
  else if rounds above then some ⟨above, k⟩
  else none

def shortest (d : Double) : Decimal :=
  if d.significand = 0 then ⟨0, 0⟩
  else ((List.range 17).findSome? fun n => d.decimalOfLength (n + 1)).getD ⟨0, 0⟩

end Double

/-! ## Writing -/

/-- Positional from 10⁻⁴ up to 10¹⁶, with a point in any case; else with an exponent of at least
two digits. -/
def Decimal.write (d : Decimal) : List Char :=
  let digits := ((Nat.toDigits 10 d.digits).reverse.dropWhile (· == '0')).reverse
  if d.digits = 0 then ['0', '.', '0']
  else
    let point : Int := (Nat.toDigits 10 d.digits).length + d.exponent
    if 0 < point ∧ point ≤ 16 then
      let n := point.toNat
      digits.take n ++ List.replicate (n - digits.length) '0' ++
        '.' :: (if digits.length ≤ n then ['0'] else digits.drop n)
    else if -4 < point ∧ point ≤ 0 then
      '0' :: '.' :: (List.replicate (-point).toNat '0' ++ digits)
    else
      let e := point - 1
      let tail := Nat.toDigits 10 e.natAbs
      digits.take 1 ++ (if digits.length = 1 then [] else '.' :: digits.drop 1) ++
        'e' :: (if e < 0 then '-' else '+') :: (if tail.length < 2 then '0' :: tail else tail)

end ProcCatalog.Number
