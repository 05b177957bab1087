import ProcCatalog.Value.Reader
import ProcCatalog.Value.Writer
import Mathlib

/-!
# Strings of a document

A string is read back as it was written, whatever stands behind it. What an object begins with can
therefore be told from its text.
-/

namespace ProcCatalog.Value

/-! ## Reading what was written -/

private theorem hexValue?_hexDigit {n : Nat} (h : n < 16) : hexValue? (hexDigit n) = some n := by
  have hall : ∀ m : Fin 16, hexValue? (hexDigit m) = some m.val := by decide
  exact hall ⟨n, h⟩

private theorem escape?_control {c : Char} (hc : c.toNat < 0x20) {tail : Text} (h : tail ≠ []) :
    escape? ('u' :: '0' :: '0' :: hexDigit (c.toNat / 16) :: hexDigit (c.toNat % 16) :: tail) =
      .ok (.char c, 5) := by
  have hunit : hexUnit? ('0' :: '0' :: hexDigit (c.toNat / 16) :: hexDigit (c.toNat % 16) :: tail) =
      some c.toNat := by
    have hzero : hexValue? '0' = some 0 := rfl
    simp only [hexUnit?, hzero, hexValue?_hexDigit (show c.toNat / 16 < 16 by omega),
      hexValue?_hexDigit (show c.toNat % 16 < 16 by omega), Option.pure_def, Option.bind_eq_bind,
      Option.bind_some]
    congr 1
    omega
  have hhigh : isHighSurrogate c.toNat = false := by simp [isHighSurrogate]; omega
  have hlow : isLowSurrogate c.toNat = false := by simp [isLowSurrogate]; omega
  have hpoint : unitPoint c.toNat = .char c := by
    simp [unitPoint, hhigh, hlow, Char.ofNat_toNat]
  have htail : tail.isEmpty = false := by simpa using h
  simp [escape?, htail, hunit, hhigh, hpoint]

theorem readString_writeChar (opening : Text) (read : RawText) (c : Char) {tail : Text}
    (h : tail ≠ []) :
    readString opening 0 read (writeChar c ++ tail) =
      readString opening 0 (.char c :: read) tail := by
  unfold writeChar
  split_ifs with h1 h2 h3 h4 h5 h6 h7 h8
  · rw [h1]; rfl
  · rw [h2]; rfl
  · rw [h3]; rfl
  · rw [h4]; rfl
  · rw [h5]; rfl
  · rw [h6]; rfl
  · rw [h7]; rfl
  · simp only [List.cons_append, List.nil_append, readString, escape?_control h8 h]
    rfl
  · simp [readString, h1, h2, h8]

theorem readString_write (opening : Text) (read : RawText) (s rest : Text) :
    readString opening 0 read (s.flatMap writeChar ++ '\x22' :: rest) =
      .ok (read.reverse ++ Text.raw s, rest) := by
  induction s generalizing read with
  | nil => simp [readString, Text.raw]
  | cons c s ih =>
      rw [List.flatMap_cons, List.append_assoc, readString_writeChar opening read c (by simp), ih]
      simp [Text.raw]

/-! ## Telling strings apart -/

private theorem exists_raw_of_flatMap_writePoint {s : RawText} {t : Text}
    (h : s.flatMap writePoint = Text.raw t) : ∃ u, s = Text.raw u ∧ t = u.flatMap writeChar := by
  induction s generalizing t with
  | nil => exact ⟨[], rfl, by simpa [Text.raw] using h.symm⟩
  | cons c s ih =>
      rw [List.flatMap_cons, Text.raw] at h
      obtain ⟨first, t, rfl, hfirst, ht⟩ := List.append_eq_map_iff.mp h
      obtain ⟨u, rfl, rfl⟩ := ih ht.symm
      cases c with
      | half place => simp [writePoint, List.map_eq_cons_iff] at hfirst
      | char c =>
          refine ⟨c :: u, rfl, ?_⟩
          have hfirst : first.map CodePoint.char = (writeChar c).map CodePoint.char := hfirst
          rw [List.map_injective_iff.mpr (fun _ _ => CodePoint.char.inj) hfirst,
            List.flatMap_cons]

private theorem exists_raw_of_writeString_append {s rest : RawText} {t : Text}
    (h : writeString s ++ rest = Text.raw t) :
    ∃ u end', s = Text.raw u ∧ t = '\x22' :: (u.flatMap writeChar ++ '\x22' :: end') := by
  rw [writeString, List.cons_append, List.append_assoc, List.singleton_append, Text.raw] at h
  obtain ⟨first, t, rfl, hfirst, ht⟩ := List.map_eq_cons_iff.mp h.symm
  obtain ⟨inner, tail, rfl, hinner, htail⟩ := List.append_eq_map_iff.mp ht.symm
  obtain ⟨last, tail, rfl, hlast, -⟩ := List.map_eq_cons_iff.mp htail
  obtain ⟨u, rfl, rfl⟩ := exists_raw_of_flatMap_writePoint hinner.symm
  exact ⟨u, tail, rfl, by rw [CodePoint.char.inj hfirst, CodePoint.char.inj hlast]⟩

theorem eq_of_writeString_append {s s' rest rest' : RawText} {t : Text}
    (hs : writeString s ++ rest = Text.raw t) (hs' : writeString s' ++ rest' = Text.raw t) :
    s = s' := by
  obtain ⟨u, tail, rfl, rfl⟩ := exists_raw_of_writeString_append hs
  obtain ⟨u', tail', rfl, ht⟩ := exists_raw_of_writeString_append hs'
  have hread := readString_write [] [] u tail
  rw [(List.cons_inj_right _).mp ht, readString_write] at hread
  exact (Prod.mk.inj (Except.ok.inj hread)).1.symm

/-- What stands before the first string of an object depends on its key alone. -/
private theorem exists_write_obj_eq (key : RawText) :
    ∃ front : RawText, ∀ (s : RawText) (members : List (RawText × Value)),
      ∃ rest, (obj ((key, .str s) :: members)).write = front ++ (writeString s ++ rest) := by
  refine ⟨Text.raw ['\x7b'] ++ (Text.raw (newLine 1) ++ (writeString key ++ Text.raw [':', ' '])),
    fun s members => ⟨(memberChunks 1 members).flatten ++
      (Text.raw (newLine 0) ++ Text.raw ['\x7d']), ?_⟩⟩
  simp [write, chunks, chunksAt]

/-- Two objects that are written alike and begin with a string under the same key begin with the
same string. -/
theorem first_eq_of_write_eq {key s s' : RawText} {members members' : List (RawText × Value)}
    {t : Text} (h : (obj ((key, .str s) :: members)).write = Text.raw t)
    (h' : (obj ((key, .str s') :: members')).write = Text.raw t) : s = s' := by
  obtain ⟨front, hfront⟩ := exists_write_obj_eq key
  obtain ⟨rest, hrest⟩ := hfront s members
  obtain ⟨rest', hrest'⟩ := hfront s' members'
  rw [hrest, Text.raw] at h
  rw [hrest', Text.raw] at h'
  obtain ⟨a, b, rfl, ha, hb⟩ := List.append_eq_map_iff.mp h
  obtain ⟨a', b', hab, ha', hb'⟩ := List.append_eq_map_iff.mp h'
  have hlength : a.length = a'.length := by simpa using congrArg List.length (ha.trans ha'.symm)
  obtain ⟨rfl, rfl⟩ := List.append_inj hab hlength
  exact eq_of_writeString_append hb.symm hb'.symm

end ProcCatalog.Value
