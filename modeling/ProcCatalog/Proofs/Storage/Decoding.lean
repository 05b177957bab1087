import ProcCatalog.Storage.Encoding
import Mathlib

/-!
# Decoding what was encoded

The bytes of a character stand for that character and no other, whatever follows them, and a text
is decoded from its bytes with nothing left over.
-/

namespace ProcCatalog.Storage

/-! ## Bytes as numbers -/

private theorem toNat_toUInt8 {n : Nat} (h : n < 256) : n.toUInt8.toNat = n := by
  simp [Nat.toUInt8, Nat.mod_eq_of_lt h]

private theorem toUInt8_lt {n : Nat} (h : n < 256) (b : UInt8) : n.toUInt8 < b ↔ n < b.toNat := by
  rw [UInt8.lt_iff_toNat_lt, toNat_toUInt8 h]

private theorem le_toUInt8 {n : Nat} (h : n < 256) (b : UInt8) : b ≤ n.toUInt8 ↔ b.toNat ≤ n := by
  rw [UInt8.le_iff_toNat_le, toNat_toUInt8 h]

private theorem toUInt8_eq {n : Nat} (h : n < 256) (b : UInt8) : n.toUInt8 = b ↔ n = b.toNat := by
  rw [← UInt8.toNat_inj, toNat_toUInt8 h]

/-- A byte behind the first one holds six bits. -/
private theorem isContinuation_toUInt8 {k : Nat} (h : k < 64) :
    isContinuation (0x80 + k).toUInt8 = true := by
  rw [isContinuation, Bool.and_eq_true, decide_eq_true_eq, decide_eq_true_eq,
    le_toUInt8 (by omega), toUInt8_lt (by omega)]
  exact ⟨Nat.le_add_right _ _, Nat.add_lt_add_left h _⟩

private theorem lowBits_toUInt8 {k : Nat} (h : k < 64) : lowBits (0x80 + k).toUInt8 = k := by
  rw [lowBits, toNat_toUInt8 (by omega)]
  omega

/-! ## Characters -/

private theorem utf8Front_one {n : Nat} (h : n < 0x80) (rest : Bytes) :
    utf8Front (n.toUInt8 :: rest) = .char (Char.ofNat n) 1 := by
  have hfirst : n.toUInt8 < 0x80 := (toUInt8_lt (by omega) _).mpr h
  rw [utf8Front.eq_def]
  dsimp only
  rw [if_pos hfirst, toNat_toUInt8 (by omega)]

private theorem utf8Front_two {a b : Nat} (ha : 2 ≤ a) (ha' : a < 32) (hb : b < 64)
    (rest : Bytes) :
    utf8Front ((0xc0 + a).toUInt8 :: (0x80 + b).toUInt8 :: rest) =
      .char (Char.ofNat (a * 64 + b)) 2 := by
  have hbyte : 0xc0 + a < 256 := by omega
  have h1 : ¬(0xc0 + a).toUInt8 < 0x80 := by rw [toUInt8_lt hbyte]; simp; omega
  have h2 : ¬(0xc0 + a).toUInt8 < 0xc2 := by rw [toUInt8_lt hbyte]; simp; omega
  have h3 : (0xc0 + a).toUInt8 < 0xe0 := by rw [toUInt8_lt hbyte]; simp; omega
  have hlow : (0xc0 + a) % 32 = a := by omega
  rw [utf8Front, if_neg h1, if_neg h2, if_pos h3, if_pos (isContinuation_toUInt8 hb),
    lowBits_toUInt8 hb, toNat_toUInt8 hbyte, hlow]

/-- A second byte fits if the form is neither too long nor a surrogate nor too large. -/
private theorem secondFits_toUInt8 {n b : Nat} (hn : n < 256) (hb : b < 64)
    (h0 : n = 0xe0 → 32 ≤ b) (hd : n = 0xed → b < 32) (hf : n = 0xf0 → 16 ≤ b)
    (h4 : n = 0xf4 → b < 16) : secondFits n.toUInt8 (0x80 + b).toUInt8 = true := by
  have hbyte : 0x80 + b < 256 := by omega
  simp only [secondFits, isContinuation_toUInt8 hb, Bool.true_and, Bool.and_eq_true,
    Bool.not_eq_true', ← Bool.not_eq_true, beq_iff_eq, decide_eq_true_eq, toUInt8_eq hn,
    toUInt8_lt hbyte, le_toUInt8 hbyte, UInt8.toNat_ofNat]
  omega

private theorem utf8Front_three {a b c : Nat} (ha : a < 16) (hb : b < 64) (hc : c < 64)
    (hlong : a = 0 → 32 ≤ b) (hhalf : a = 13 → b < 32) (rest : Bytes) :
    utf8Front ((0xe0 + a).toUInt8 :: (0x80 + b).toUInt8 :: (0x80 + c).toUInt8 :: rest) =
      .char (Char.ofNat (a * 4096 + b * 64 + c)) 3 := by
  have hbyte : 0xe0 + a < 256 := by omega
  have h1 : ¬(0xe0 + a).toUInt8 < 0x80 := by rw [toUInt8_lt hbyte]; simp; omega
  have h2 : ¬(0xe0 + a).toUInt8 < 0xc2 := by rw [toUInt8_lt hbyte]; simp; omega
  have h3 : ¬(0xe0 + a).toUInt8 < 0xe0 := by rw [toUInt8_lt hbyte]; simp
  have h4 : (0xe0 + a).toUInt8 < 0xf0 := by rw [toUInt8_lt hbyte]; simp; omega
  have hfits : secondFits (0xe0 + a).toUInt8 (0x80 + b).toUInt8 = true :=
    secondFits_toUInt8 hbyte hb (by omega) (by omega) (by omega) (by omega)
  have hlow : (0xe0 + a) % 16 = a := by omega
  rw [utf8Front, if_neg h1, if_neg h2, if_neg h3, if_pos h4]
  dsimp only
  rw [hfits, isContinuation_toUInt8 hc, lowBits_toUInt8 hb, lowBits_toUInt8 hc,
    toNat_toUInt8 hbyte, hlow]
  rfl

private theorem utf8Front_four {a b c d : Nat} (ha : a < 5) (hb : b < 64) (hc : c < 64)
    (hd : d < 64) (hlong : a = 0 → 16 ≤ b) (hlarge : a = 4 → b < 16) (rest : Bytes) :
    utf8Front ((0xf0 + a).toUInt8 :: (0x80 + b).toUInt8 :: (0x80 + c).toUInt8 ::
        (0x80 + d).toUInt8 :: rest) =
      .char (Char.ofNat (a * 262144 + b * 4096 + c * 64 + d)) 4 := by
  have hbyte : 0xf0 + a < 256 := by omega
  have h1 : ¬(0xf0 + a).toUInt8 < 0x80 := by rw [toUInt8_lt hbyte]; simp; omega
  have h2 : ¬(0xf0 + a).toUInt8 < 0xc2 := by rw [toUInt8_lt hbyte]; simp; omega
  have h3 : ¬(0xf0 + a).toUInt8 < 0xe0 := by rw [toUInt8_lt hbyte]; simp; omega
  have h4 : ¬(0xf0 + a).toUInt8 < 0xf0 := by rw [toUInt8_lt hbyte]; simp
  have h5 : (0xf0 + a).toUInt8 < 0xf5 := by rw [toUInt8_lt hbyte]; simp; omega
  have hfits : secondFits (0xf0 + a).toUInt8 (0x80 + b).toUInt8 = true :=
    secondFits_toUInt8 hbyte hb (by omega) (by omega) (by omega) (by omega)
  have hlow : (0xf0 + a) % 8 = a := by omega
  rw [utf8Front, if_neg h1, if_neg h2, if_neg h3, if_neg h4, if_pos h5]
  dsimp only
  rw [hfits, isContinuation_toUInt8 hc, isContinuation_toUInt8 hd, lowBits_toUInt8 hb,
    lowBits_toUInt8 hc, lowBits_toUInt8 hd, toNat_toUInt8 hbyte, hlow]
  rfl

theorem utf8Front_encodeChar (c : Char) (rest : Bytes) :
    utf8Front (encodeChar c ++ rest) = .char c (encodeChar c).length := by
  have hvalid : c.toNat < 0xd800 ∨ 0xdfff < c.toNat ∧ c.toNat < 0x110000 := c.valid
  have hofNat (n : Nat) (h : n = c.toNat) : Char.ofNat n = c := by rw [h, Char.ofNat_toNat]
  rw [encodeChar]
  split_ifs with h1 h2 h3
  · rw [List.singleton_append, utf8Front_one h1, hofNat _ rfl]
    rfl
  · simp only [List.cons_append, List.nil_append]
    rw [utf8Front_two (by omega) (by omega) (by omega), hofNat _ (by omega)]
    rfl
  · simp only [List.cons_append, List.nil_append]
    rw [utf8Front_three (by omega) (by omega) (by omega) (by omega) (by omega),
      hofNat _ (by omega)]
    rfl
  · simp only [List.cons_append, List.nil_append]
    rw [utf8Front_four (by omega) (by omega) (by omega) (by omega) (by omega) (by omega),
      hofNat _ (by omega)]
    rfl

theorem encodeChar_ne_nil (c : Char) : encodeChar c ≠ [] := by
  rw [encodeChar]
  split_ifs <;> simp

/-! ## Texts -/

variable {codec : String} {front : Bytes → Front} {atEnd : Bool}

private theorem decodeFrom_skip (bytes rest : Bytes) (position : Nat) (read : Text) :
    decodeFrom codec front atEnd bytes.length position read (bytes ++ rest) =
      decodeFrom codec front atEnd 0 (position + bytes.length) read rest := by
  induction bytes generalizing position with
  | nil => rfl
  | cons b bytes ih =>
      rw [List.cons_append, List.length_cons, decodeFrom, ih, Nat.add_assoc, Nat.add_comm 1]

private theorem decodeFrom_encodeUtf8 (s read : Text) (position : Nat) :
    decodeFrom codec utf8Front atEnd 0 position read (encodeUtf8 s) =
      .ok (read.reverse ++ s, []) := by
  -- The first byte of a character gives it, and the others are passed over.
  induction s generalizing read position with
  | nil => rw [encodeUtf8, List.flatMap_nil, decodeFrom, List.append_nil]
  | cons c s ih =>
      have hfront := utf8Front_encodeChar c (encodeUtf8 s)
      rw [encodeUtf8, List.flatMap_cons, ← encodeUtf8]
      revert hfront
      cases hbytes : encodeChar c with
      | nil => exact absurd hbytes (encodeChar_ne_nil c)
      | cons b bytes =>
          intro hfront
          rw [List.cons_append] at hfront
          rw [List.cons_append, decodeFrom, hfront]
          dsimp only
          rw [List.length_cons, Nat.add_sub_cancel, decodeFrom_skip, ih]
          simp

theorem decodeUtf8_encodeUtf8 (s : Text) : decodeUtf8 atEnd (encodeUtf8 s) = .ok (s, []) :=
  decodeFrom_encodeUtf8 s [] 0

end ProcCatalog.Storage
