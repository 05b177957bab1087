/-!
# Binary doubles

A finite double is a natural number below 2⁵³ times a power of two from 2⁻¹⁰⁷⁴ on. `nearest`
rounds a fraction to the nearest double, a tie to the even number, and answers none when the
result lies beyond the largest double.
-/

namespace ProcCatalog.Number

/-- The quotient rounded to the nearest whole number, a tie to the even one. -/
def roundDiv (num den : Nat) : Nat :=
  let q := num / den
  let r := num % den
  if 2 * r < den then q else if den < 2 * r then q + 1 else if q % 2 = 0 then q else q + 1

structure Double where
  significand : Nat
  exponent : Int
  deriving DecidableEq, Repr

namespace Double

def zero : Double := ⟨0, 0⟩

/-- The least significand of a double that is not held down by the least exponent, 2⁵². -/
def leastNormal : Nat := Nat.pow 2 52

/-- The fraction `num / den` divided by a power of two. -/
def scaled (num den : Nat) (exponent : Int) : Nat × Nat :=
  if 0 ≤ exponent then (num, den * Nat.pow 2 exponent.toNat)
  else (num * Nat.pow 2 (-exponent).toNat, den)

/-- The exponent that leaves 53 binary digits before the point, or the least one. -/
def exponentFor (num den : Nat) : Int :=
  let guess : Int := (Nat.log2 num : Int) - (Nat.log2 den : Int) - 52
  let (a, b) := scaled num den guess
  let exact := if a / b < leastNormal then guess - 1 else guess
  if exact < -1074 then -1074 else exact

def nearest (num den : Nat) : Option Double :=
  if num = 0 then some zero
  else
    let e := exponentFor num den
    let (a, b) := scaled num den e
    let m := roundDiv a b
    let d : Double := if m = 2 * leastNormal then ⟨leastNormal, e + 1⟩ else ⟨m, e⟩
    if 971 < d.exponent then none else some d

def fraction (d : Double) : Nat × Nat :=
  if 0 ≤ d.exponent then (d.significand * Nat.pow 2 d.exponent.toNat, 1)
  else (d.significand, Nat.pow 2 (-d.exponent).toNat)

/-- The value in tenths, rounded to the nearest, a tie to the even number. -/
def tenths (d : Double) : Nat := roundDiv (d.fraction.1 * 10) d.fraction.2

end Double

end ProcCatalog.Number
