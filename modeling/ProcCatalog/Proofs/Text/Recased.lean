import ProcCatalog.Proofs.Text.Exchange
import ProcCatalog.Text.Lower

/-!
# Letter case

Capital and small ASCII letters can be exchanged. A text is written in small letters in the same
way, whichever of the two stand in it.
-/

namespace ProcCatalog.Text

/-- The texts are of the same length and differ in no more than the case of ASCII letters. -/
def Recased (s t : Text) : Prop := s.map Char.toLower = t.map Char.toLower

instance (s t : Text) : Decidable (Recased s t) :=
  inferInstanceAs (Decidable (s.map Char.toLower = t.map Char.toLower))

/-! ## Characters -/

private theorem exists_of_isUpper {c : Char} (h : c.isUpper = true) :
    ∃ i < 26, c = Char.ofNat (65 + i) := by
  rw [Char.isUpper, decide_eq_true_eq] at h
  have hlow : 65 ≤ c.toNat := h.1
  have hhigh : c.toNat ≤ 90 := h.2
  refine ⟨c.toNat - 65, by omega, ?_⟩
  rw [show 65 + (c.toNat - 65) = c.toNat by omega, Char.ofNat_toNat]

/-- What is the same for the two forms of each letter is not changed by small letters. -/
private theorem apply_toLower {α : Type} {f : Char → α}
    (h : ∀ i < 26, f (Char.ofNat (97 + i)) = f (Char.ofNat (65 + i))) (c : Char) :
    f c.toLower = f c := by
  cases hupper : c.isUpper with
  | false => rw [Char.toLower_eq_of_not_isUpper (by simp [hupper])]
  | true =>
      obtain ⟨i, hi, rfl⟩ := exists_of_isUpper hupper
      have hsmall : ∀ i < 26, (Char.ofNat (65 + i)).toLower = Char.ofNat (97 + i) := by decide
      rw [hsmall i hi, h i hi]

/-- Small letters for capital ones. A class does not tell them apart if it has both forms of each
letter or none. -/
def recasing : Exchange where
  apply := Char.toLower
  likens accepts := (List.range 26).all fun i =>
    accepts (Char.ofNat (97 + i)) == accepts (Char.ofNat (65 + i))
  accepts_apply h c :=
    apply_toLower (fun i hi => beq_iff_eq.mp (List.all_eq_true.mp h i (List.mem_range.mpr hi))) c
  likens_isWord := rfl
  likens_feed := rfl

/-- What is the same in small letters is the same in either case. -/
theorem Recased.apply_eq {α : Type} {f : Text → α} (hf : ∀ s, f (s.map recasing.apply) = f s)
    {s t : Text} (h : Recased s t) : f s = f t := by
  have hmap : s.map recasing.apply = t.map recasing.apply := h
  rw [← hf s, hmap, hf t]

/-! ## Small letters -/

private theorem nextIsCased_recased (s : Text) :
    nextIsCased (s.map recasing.apply) = nextIsCased s := by
  have hskipped : recasing.likens (fun c => inRanges skippedRanges c.toNat) = true := by
    decide +kernel
  have hcased : recasing.likens (fun c => inRanges casedRanges c.toNat) = true := by
    decide +kernel
  rw [nextIsCased, nextIsCased, recasing.dropWhile_map hskipped]
  cases s.dropWhile fun c => inRanges skippedRanges c.toNat with
  | nil => rfl
  | cons c _ => exact recasing.accepts_apply hcased c

private theorem lowerFrom_recased (before s : Text) :
    lowerFrom (before.map recasing.apply) (s.map recasing.apply) = lowerFrom before s := by
  have hnat (n : Nat) (h : recasing.likens (fun c => decide (c.toNat = n)) = true) (c : Char) :
      (recasing.apply c).toNat = n ↔ c.toNat = n :=
    decide_eq_decide.mp (recasing.accepts_apply h c)
  induction s generalizing before with
  | nil => rfl
  | cons c s ih =>
      have hsmall : smallLetter (recasing.apply c) = smallLetter c := apply_toLower (by decide) c
      rw [List.map_cons, lowerFrom, lowerFrom, ← List.map_cons, ih, hsmall, nextIsCased_recased,
        nextIsCased_recased]
      simp only [hnat 0x130 rfl, hnat 0x3a3 rfl]

theorem lower_recased (s : Text) : lower (s.map recasing.apply) = lower s := lowerFrom_recased [] s

end ProcCatalog.Text
