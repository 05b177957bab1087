import ProcCatalog.Body.Profile

/-!
# Complexity

Five tiers, by the number of lines, the number of tables and the anti-patterns of a body. The
highest tier whose condition holds is taken.
-/

namespace ProcCatalog.Body

inductive Tier where
  | trivial
  | simple
  | moderate
  | complex
  | veryComplex
  deriving DecidableEq, Repr

namespace Tier

def all : List Tier := [trivial, simple, moderate, complex, veryComplex]

def label : Tier → String
  | trivial => "trivial"
  | simple => "simple"
  | moderate => "moderate"
  | complex => "complex"
  | veryComplex => "very-complex"

def rank : Tier → Nat
  | trivial => 0
  | simple => 1
  | moderate => 2
  | complex => 3
  | veryComplex => 4

def isHeavy (tier : Tier) : Bool := tier == complex || tier == veryComplex

def classify (lines tables : Int) (p : Profile) : Tier :=
  if 500 ≤ lines ∨ (8 ≤ tables ∧ 2 ≤ p.severity) then veryComplex
  else if 150 ≤ lines ∨ 5 ≤ tables ∨ p.hasCursor ∨ p.hasDynamicSql then complex
  else if 50 ≤ lines ∨ 3 ≤ tables then moderate
  else if 20 ≤ lines ∨ 2 ≤ tables then simple
  else trivial

end Tier

end ProcCatalog.Body
