import ProcCatalog.Text.Basic
import ProcCatalog.Text.Word
import Mathlib

/-!
# Exchanged characters

A text can be written with other characters in place of some of its own. What cannot tell a
character from the one it is exchanged for sees the same in both texts.
-/

namespace ProcCatalog.Text

/-- A map of characters, with a test for the classes that do not tell a character from its image.
Word characters and line feeds always stay what they are. -/
structure Exchange where
  apply : Char → Char
  likens : (Char → Bool) → Bool
  accepts_apply : ∀ {accepts : Char → Bool}, likens accepts = true →
    ∀ c, accepts (apply c) = accepts c
  likens_isWord : likens isWord = true
  likens_feed : likens (· == '\n') = true

namespace Exchange

variable (e : Exchange)

theorem apply_eq_iff {d : Char} (h : e.likens (· == d) = true) (c : Char) :
    e.apply c = d ↔ c = d := by
  rw [← beq_iff_eq, e.accepts_apply h c, beq_iff_eq]

theorem apply_eq_feed_iff (c : Char) : e.apply c = '\n' ↔ c = '\n' :=
  e.apply_eq_iff e.likens_feed c

theorem mem_map_iff {d : Char} (h : e.likens (· == d) = true) {s : Text} :
    d ∈ s.map e.apply ↔ d ∈ s := by
  simp [List.mem_map, e.apply_eq_iff h]

theorem any_map {accepts : Char → Bool} (h : e.likens accepts = true) (o : Option Char) :
    (o.map e.apply).any accepts = o.any accepts := by
  cases o with
  | none => rfl
  | some c => exact e.accepts_apply h c

theorem dropWhile_map {accepts : Char → Bool} (h : e.likens accepts = true) (s : Text) :
    (s.map e.apply).dropWhile accepts = (s.dropWhile accepts).map e.apply := by
  induction s with
  | nil => rfl
  | cons c s ih =>
      rw [List.map_cons, List.dropWhile_cons, List.dropWhile_cons, e.accepts_apply h, ih]
      split <;> rfl

theorem trimEndWith_map {drop : Char → Bool} (h : e.likens drop = true) (s : Text) :
    trimEndWith drop (s.map e.apply) = (trimEndWith drop s).map e.apply := by
  rw [trimEndWith, trimEndWith, ← List.map_reverse, e.dropWhile_map h, ← List.map_reverse]

theorem trimWith_map {drop : Char → Bool} (h : e.likens drop = true) (s : Text) :
    trimWith drop (s.map e.apply) = (trimWith drop s).map e.apply := by
  rw [trimWith, trimWith, e.dropWhile_map h, e.trimEndWith_map h]

end Exchange

end ProcCatalog.Text
