import ProcCatalog.Body.Profile
import ProcCatalog.Proofs.Pattern.Parted

/-!
# Anti-patterns of joined texts

No anti-pattern goes over a semicolon. What two texts show when one joins them is what they show
each for itself, wherever in the middle of a pattern they may begin or end.
-/

namespace ProcCatalog.Body

open Pattern

/-- What two texts show together: either may have an anti-pattern, both have to lack what is
missing. -/
def Profile.join (p q : Profile) : Profile where
  hasCursor := p.hasCursor || q.hasCursor
  hasSelectStar := p.hasSelectStar || q.hasSelectStar
  hasDynamicSql := p.hasDynamicSql || q.hasDynamicSql
  hasNolock := p.hasNolock || q.hasNolock
  nolockCount := p.nolockCount + q.nolockCount
  missingSetNocountOn := p.missingSetNocountOn && q.missingSetNocountOn
  hasTableVariable := p.hasTableVariable || q.hasTableVariable
  hasTempTable := p.hasTempTable || q.hasTempTable
  hasWhileLoop := p.hasWhileLoop || q.hasWhileLoop
  hasNoTryCatch := p.hasNoTryCatch && q.hasNoTryCatch

private theorem occursIn_joined {p : Pattern} (hp : p.stops ';' = true) (hmoves : p.moves = true)
    (a b : Text) : p.occursIn (a ++ ';' :: b) = (p.occursIn a || p.occursIn b) :=
  occursIn_parted hp hmoves rfl a b

theorem detect_joined (a b : Text) :
    Profile.detect (a ++ ';' :: b) = (Profile.detect a).join (Profile.detect b) := by
  have hnolock : (nolock.findAll (a ++ ';' :: b)).length =
      (nolock.findAll a).length + (nolock.findAll b).length :=
    length_findAll_parted (by decide +kernel) rfl rfl a b
  simp only [Profile.detect, Profile.join, hnolock, Nat.add_pos_iff_pos_or_pos, Bool.decide_or,
    Bool.not_or,
    occursIn_joined (p := cursor) (by decide +kernel) rfl,
    occursIn_joined (p := selectStar) (by decide +kernel) rfl,
    occursIn_joined (p := dynamicSql) (by decide +kernel) rfl,
    occursIn_joined (p := setNocountOn) (by decide +kernel) rfl,
    occursIn_joined (p := tableVariable) (by decide +kernel) rfl,
    occursIn_joined (p := tempTable) (by decide +kernel) rfl,
    occursIn_joined (p := whileLoop) (by decide +kernel) rfl,
    occursIn_joined (p := tryBlock) (by decide +kernel) rfl]

/-- A hint and a star that are cut in the middle are found on neither side. -/
example : Profile.detect "SELECT TOP 1;* FROM t WITH (NOLOCK;)".toList =
    { missingSetNocountOn := true, hasNoTryCatch := true } := by decide +kernel

end ProcCatalog.Body
