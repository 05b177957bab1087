import ProcCatalog.Body.Complexity
import Mathlib

/-!
# Tiers

A tier is reached when its condition holds, and the tier taken is the highest one reached. More
lines, more tables or more flags never undo what was reached, so they never lower the tier.
-/

namespace ProcCatalog.Body

variable {lines lines' count count' : Int} {p p' : Profile}

/-! ## Profiles -/

def Profile.Within (p p' : Profile) : Prop :=
  ∀ flag : Flag, p.flag flag = true → p'.flag flag = true

theorem Profile.Within.refl (p : Profile) : p.Within p := fun _ h => h

theorem Profile.Within.severity_le (h : p.Within p') : p.severity ≤ p'.severity :=
  List.countP_mono_left fun flag _ => h flag

namespace Tier

/-! ## Conditions -/

def Reached (lines count : Int) (p : Profile) : Tier → Prop
  | veryComplex => 500 ≤ lines ∨ (8 ≤ count ∧ 2 ≤ p.severity)
  | complex => 150 ≤ lines ∨ 5 ≤ count ∨ p.hasCursor = true ∨ p.hasDynamicSql = true
  | moderate => 50 ≤ lines ∨ 3 ≤ count
  | simple => 20 ≤ lines ∨ 2 ≤ count
  | trivial => True

theorem reached_classify (lines count : Int) (p : Profile) :
    (classify lines count p).Reached lines count p := by
  rw [classify]
  split
  · assumption
  · split
    · assumption
    · split
      · assumption
      · split
        · assumption
        · trivial

/-- No tier above the one taken is reached. -/
theorem rank_le_classify {tier : Tier} (h : tier.Reached lines count p) :
    tier.rank ≤ (classify lines count p).rank := by
  rw [classify]
  -- each condition that is asked for before that of the tier leads to a higher one
  cases tier with
  | trivial => exact Nat.zero_le _
  | simple =>
      rw [Reached] at h
      split
      · decide
      · split
        · decide
        · split
          · decide
          · exact le_rfl
  | moderate =>
      rw [Reached] at h
      split
      · decide
      · split
        · decide
        · exact le_rfl
  | complex =>
      rw [Reached] at h
      split
      · decide
      · exact le_rfl
  | veryComplex =>
      rw [Reached] at h
      rw [if_pos h]

theorem Reached.mono {tier : Tier} (hlines : lines ≤ lines') (hcount : count ≤ count')
    (hp : p.Within p') (h : tier.Reached lines count p) : tier.Reached lines' count' p' := by
  cases tier with
  | trivial => trivial
  | simple => exact h.imp hlines.trans' hcount.trans'
  | moderate => exact h.imp hlines.trans' hcount.trans'
  | complex =>
      exact h.imp hlines.trans' (Or.imp hcount.trans' (Or.imp (hp .cursor) (hp .dynamicSql)))
  | veryComplex =>
      exact h.imp hlines.trans' (And.imp hcount.trans' hp.severity_le.trans')

theorem rank_classify_le (hlines : lines ≤ lines') (hcount : count ≤ count') (hp : p.Within p') :
    (classify lines count p).rank ≤ (classify lines' count' p').rank :=
  rank_le_classify ((reached_classify lines count p).mono hlines hcount hp)

end Tier

end ProcCatalog.Body
