import ProcCatalog.Proofs.Text.Classes
import ProcCatalog.Text.Digit

/-!
# Letters and digits in small letters

Digits of every script are word characters and have no capitals. A text of ASCII letters and digits
is therefore written in small letters one by one.
-/

namespace ProcCatalog.Text

variable {c : Char} {s : Text}

/-! ## Digits -/

theorem exists_zero_of_isDigit (h : isDigit c = true) :
    ∃ start ∈ zeros, start ≤ c.toNat ∧ c.toNat ≤ start + 9 := by
  rw [isDigit, digitValue?, Option.isSome_map, List.find?_isSome] at h
  simpa using h

theorem getD_digitValue?_le (c : Char) : (digitValue? c).getD 0 ≤ 9 := by
  rw [digitValue?]
  cases hfind : zeros.find? fun start => start ≤ c.toNat && c.toNat ≤ start + 9 with
  | none => exact Nat.zero_le 9
  | some start =>
      have hrange := List.find?_some hfind
      simp only [Bool.and_eq_true, decide_eq_true_eq] at hrange
      simp only [Option.map_some, Option.getD_some]
      omega

theorem numberOf_lt (digits : Text) : numberOf digits < 10 ^ digits.length := by
  induction digits using List.reverseRecOn with
  | nil => exact Nat.one_pos
  | append_singleton digits c ih =>
      have hstep : numberOf (digits ++ [c]) = 10 * numberOf digits + (digitValue? c).getD 0 := by
        rw [numberOf, List.foldl_append]
        rfl
      have hvalue := getD_digitValue?_le c
      rw [hstep, List.length_append, List.length_singleton, Nat.pow_succ]
      omega

/-- A row of digits is that of ASCII, or a range of word characters holds it. -/
private theorem zeros_word :
    ∀ start ∈ zeros, start = 48 ∨ 128 ≤ start ∧
      wordRanges.any (fun range => range.1 ≤ start && start + 9 ≤ range.2) = true := by
  decide +kernel

/-- No capital stands in a row of digits. -/
private theorem zeros_small :
    ∀ start ∈ zeros, ∀ row ∈ capitalRows, start + 9 < row.first ∨ row.last < start := by
  decide +kernel

private theorem zeros_special :
    ∀ start ∈ zeros, (start + 9 < 0x130 ∨ 0x130 < start) ∧ (start + 9 < 0x3a3 ∨ 0x3a3 < start) := by
  decide +kernel

theorem isWord_of_isDigit (h : isDigit c = true) : isWord c = true := by
  obtain ⟨start, hstart, hfirst, hlast⟩ := exists_zero_of_isDigit h
  rcases zeros_word start hstart with rfl | ⟨hhigh, hrange⟩
  · have hascii : isAsciiDigit c = true := by simp [isAsciiDigit, hfirst, hlast]
    simp [isWord, show c.toNat < 128 by omega, hascii]
  · rw [isWord, if_neg (by omega), inRanges]
    obtain ⟨range, hmem, hrange⟩ := List.any_eq_true.mp hrange
    refine List.any_eq_true.mpr ⟨range, hmem, ?_⟩
    simp only [Bool.and_eq_true, decide_eq_true_eq] at hrange ⊢
    omega

theorem smallLetter_of_isDigit (h : isDigit c = true) : smallLetter c = c := by
  obtain ⟨start, hstart, hfirst, hlast⟩ := exists_zero_of_isDigit h
  rw [smallLetter]
  split
  · rcases zeros_word start hstart with rfl | ⟨hhigh, -⟩
    · rw [if_neg]
      simp only [isAsciiUpper, Bool.and_eq_true, decide_eq_true_eq]
      omega
    · omega
  · have hnone : capitalRows.find? (fun row => row.first ≤ c.toNat && c.toNat ≤ row.last &&
        (c.toNat - row.first) % row.stride == 0) = none := by
      refine List.find?_eq_none.mpr fun row hrow hfound => ?_
      simp only [Bool.and_eq_true, decide_eq_true_eq] at hfound
      rcases zeros_small start hstart row hrow with hbelow | habove <;> omega
    rw [hnone]

/-! ## Letters and digits -/

/-- An ASCII letter or a digit of any script. -/
def isLetterOrDigit (c : Char) : Bool := isAsciiLetter c || isDigit c

theorem isWord_of_isAsciiLetter (h : isAsciiLetter c = true) : isWord c = true := by
  have hascii : c.toNat < 128 := by
    simp only [isAsciiLetter, isAsciiUpper, isAsciiLower, Bool.or_eq_true, Bool.and_eq_true,
      decide_eq_true_eq] at h
    omega
  simp [isWord, hascii, h]

theorem isWord_of_isPlainLetter (h : isPlainLetter c = true) : isWord c = true := by
  rw [← isWord_foldCase]
  have hlower : isAsciiLower (foldCase c) = true := h
  exact isWord_of_isAsciiLetter (by simp [isAsciiLetter, hlower])

theorem isAsciiLower_smallLetter (h : isAsciiLetter c = true) :
    isAsciiLower (smallLetter c) = true := by
  simp only [isAsciiLetter, isAsciiUpper, isAsciiLower, Bool.or_eq_true, Bool.and_eq_true,
    decide_eq_true_eq] at h
  rw [smallLetter, if_pos (by omega)]
  split
  · rename_i hupper
    simp only [isAsciiUpper, Bool.and_eq_true, decide_eq_true_eq] at hupper
    have hsmall : (Char.ofNat (c.toNat + 32)).toNat = c.toNat + 32 := by
      rw [Char.toNat_ofNat, if_pos (.inl (by omega))]
    simp only [isAsciiLower, hsmall, Bool.and_eq_true, decide_eq_true_eq]
    omega
  · rename_i hupper
    simp only [isAsciiUpper, Bool.and_eq_true, decide_eq_true_eq] at hupper
    simp only [isAsciiLower, Bool.and_eq_true, decide_eq_true_eq]
    omega

/-- Neither the capital I with dot nor the capital sigma is among them. -/
private theorem toNat_ne_of_isLetterOrDigit (h : isLetterOrDigit c = true) :
    c.toNat ≠ 0x130 ∧ c.toNat ≠ 0x3a3 := by
  rcases Bool.or_eq_true_iff.mp h with h | h
  · simp only [isAsciiLetter, isAsciiUpper, isAsciiLower, Bool.or_eq_true, Bool.and_eq_true,
      decide_eq_true_eq] at h
    omega
  · obtain ⟨start, hstart, hfirst, hlast⟩ := exists_zero_of_isDigit h
    have := zeros_special start hstart
    omega

private theorem lowerFrom_eq_map (h : ∀ x ∈ s, isLetterOrDigit x = true) (before : Text) :
    lowerFrom before s = s.map smallLetter := by
  induction s generalizing before with
  | nil => rfl
  | cons x s ih =>
      obtain ⟨hx, hs⟩ := List.forall_mem_cons.mp h
      obtain ⟨hdot, hsigma⟩ := toNat_ne_of_isLetterOrDigit hx
      rw [lowerFrom, if_neg hdot, if_neg hsigma, ih hs]
      rfl

theorem lower_eq_map (h : ∀ x ∈ s, isLetterOrDigit x = true) : lower s = s.map smallLetter :=
  lowerFrom_eq_map h []

end ProcCatalog.Text
