import ProcCatalog.Storage.Encoding
import Mathlib

/-!
# Bytes of a text

The bytes of a text determine it. A text that is written in chunks is written as a whole, provided
that no chunk holds half of a surrogate pair.
-/

namespace ProcCatalog.Storage

/-! ## UTF-8 -/

theorem encodeChar_eq (c : Char) : encodeChar c = String.utf8EncodeChar c := by
  have hlt : c.val.toNat < 0x110000 := c.valid.elim (by omega) (by omega)
  simp only [encodeChar, String.utf8EncodeChar, Char.toNat, Nat.toUInt8]
  generalize c.val.toNat = n at hlt
  have htwo (h : n ≤ 0x7ff) : 0xc0 + n / 64 = n / 64 % 0x20 + 0xc0 := by omega
  have hthree (h : n ≤ 0xffff) : 0xe0 + n / 4096 = n / 4096 % 0x10 + 0xe0 := by omega
  have hfour : 0xf0 + n / 262144 = n / 262144 % 0x08 + 0xf0 := by omega
  split_ifs <;> try omega
  · rfl
  · rw [htwo ‹_›, Nat.add_comm 0x80]
  · rw [hthree ‹_›, Nat.add_comm 0x80, Nat.add_comm 0x80]
  · rw [hfour, Nat.add_comm 0x80, Nat.add_comm 0x80, Nat.add_comm 0x80]

theorem encodeUtf8_inj {s t : Text} : encodeUtf8 s = encodeUtf8 t ↔ s = t := by
  refine ⟨fun h => ?_, fun h => by rw [h]⟩
  have hflat : s.flatMap String.utf8EncodeChar = t.flatMap String.utf8EncodeChar := by
    simpa only [encodeUtf8, funext encodeChar_eq] using h
  have hbytes : (String.ofList s).toByteArray = (String.ofList t).toByteArray := by
    simpa [List.utf8Encode] using congrArg List.toByteArray hflat
  exact String.ofList_injective (String.toByteArray_inj.mp hbytes)

/-! ## Chunks -/

theorem encodeChunks_raw_cons (s : Text) (chunks : List RawText) :
    encodeChunks (Text.raw s :: chunks) =
      (encodeUtf8 s ++ (encodeChunks chunks).1, (encodeChunks chunks).2) := by
  have h : RawText.isWhole (Text.raw s) = true := by
    rw [RawText.isWhole, RawText.text?_raw, Option.isSome_some]
  simp [encodeChunks, h, RawText.text?_raw]

/-- The chunks of a text that holds no half are written as that text is. -/
theorem encodeChunks_eq {chunks : List RawText} {s : Text} (h : chunks.flatten = Text.raw s) :
    encodeChunks chunks = (encodeUtf8 s, true) := by
  induction chunks generalizing s with
  | nil =>
      obtain rfl : s = [] := by simpa [Text.raw] using h.symm
      rfl
  | cons chunk chunks ih =>
      rw [List.flatten_cons, Text.raw] at h
      obtain ⟨t, u, rfl, rfl, hchunks⟩ := List.append_eq_map_iff.mp h
      rw [show t.map CodePoint.char = Text.raw t from rfl, encodeChunks_raw_cons, ih hchunks.symm]
      simp [encodeUtf8]

theorem exists_raw_of_encodeChunks {chunks : List RawText}
    (h : (encodeChunks chunks).2 = true) : ∃ s, chunks.flatten = Text.raw s := by
  induction chunks with
  | nil => exact ⟨[], rfl⟩
  | cons chunk chunks ih =>
      have h : RawText.isWhole chunk = true ∧ chunks.all RawText.isWhole = true := by
        simpa [encodeChunks] using h
      obtain ⟨s, hs⟩ := Option.isSome_iff_exists.mp h.1
      obtain ⟨t, ht⟩ := ih h.2
      exact ⟨s ++ t, by
        rw [List.flatten_cons, ht, RawText.eq_raw_of_text? hs, Text.raw, Text.raw, Text.raw,
          List.map_append]⟩

/-- What is written of some chunks is a beginning of them. -/
theorem exists_prefix_of_encodeChunks (chunks : List RawText) :
    ∃ s, Text.raw s <+: chunks.flatten ∧ (encodeChunks chunks).1 = encodeUtf8 s := by
  induction chunks with
  | nil => exact ⟨[], List.nil_prefix, rfl⟩
  | cons chunk chunks ih =>
      cases hchunk : RawText.isWhole chunk with
      | false => exact ⟨[], List.nil_prefix, by simp [encodeChunks, hchunk, encodeUtf8]⟩
      | true =>
          obtain ⟨t, ht⟩ := Option.isSome_iff_exists.mp hchunk
          obtain rfl := RawText.eq_raw_of_text? ht
          obtain ⟨s, hs, hbytes⟩ := ih
          refine ⟨t ++ s, ?_, by rw [encodeChunks_raw_cons, hbytes]; simp [encodeUtf8]⟩
          rw [List.flatten_cons, Text.raw, List.map_append]
          exact (List.prefix_append_right_inj _).mpr hs

end ProcCatalog.Storage
