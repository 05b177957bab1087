import ProcCatalog.Proofs.Pattern.Matches
import ProcCatalog.Sql.Keyword
import ProcCatalog.Sql.ObjectName

/-!
# Identifiers

An identifier is written in brackets or plainly. Where it ends it is taken whole, as an identifier
and as a part of a name. A plain one that is no keyword is not read as one either.
-/

namespace ProcCatalog.Sql

open Pattern
open Text (Token)

/-! ## Characters -/

def isNameStart (c : Char) : Bool := Text.isPlainLetter c || c == '_'

/-- A character that can stand in brackets. -/
def isEnclosed (c : Char) : Bool := !isBracket c && c != '\r' && c != '\n'

theorem isBlank_eq_false_of_isNameTail {c : Char} (h : isNameTail c = true) :
    Text.isBlank c = false := by
  simp only [isNameTail, Bool.or_eq_true, beq_iff_eq] at h
  rcases h with ((h | rfl) | rfl) | rfl
  · exact Text.isBlank_eq_false_of_isWord h
  all_goals rfl

theorem ne_of_isNameTail {c d : Char} (h : isNameTail c = true) (hd : isNameTail d = false) :
    c ≠ d := by
  rintro rfl
  rw [h] at hd
  cases hd

theorem isBracket_eq_false_of_isNameTail {c : Char} (h : isNameTail c = true) :
    isBracket c = false := by
  simp [isBracket, ne_of_isNameTail h (d := '[') rfl, ne_of_isNameTail h (d := ']') rfl]

theorem isBracket_eq_false_of_isEnclosed {c : Char} (h : isEnclosed c = true) :
    isBracket c = false := by
  simp only [isEnclosed, Bool.and_eq_true, Bool.not_eq_true'] at h
  exact h.1.1

/-! ## Brackets -/

theorem takes_bracketedPart (content : Token isEnclosed) (v : Text) :
    Takes bracketedPart ('[' :: (content.text ++ [']'])) v := by
  intro c k r hs hk
  have hs : c.rest = '[' :: (content.text ++ ']' :: v) := by simpa using hs
  rw [bracketedPart, run_all_cons, run_char_past hs, run_all_cons]
  refine run_many1_past rfl content.nonempty (fun x hx => ?_) (by rintro x ⟨⟩; rfl) ?_
  · have hx := content.accepted x hx
    simp only [isEnclosed, isBracket, Bool.not_or, Bool.and_eq_true, Bool.not_eq_true',
      beq_eq_false_iff_ne, bne_iff_ne] at hx ⊢
    exact ⟨⟨hx.1.1.2, hx.1.2⟩, hx.2⟩
  rw [run_all_cons, run_char_past rfl, run_all_nil]
  simpa [Cursor.past_past] using hk

theorem run_bracketedPart_eq_none {c : Cursor} (k : Follow) {x : Char} {s : Text}
    (hs : c.rest = x :: s) (hx : x ≠ '[') : bracketedPart.run c k = none := by
  refine run_eq_none_of_not_begins ?_
  rintro ⟨_, _, hcut, _, _, rfl, hopen, -⟩
  rw [spans_char.mp hopen, hs] at hcut
  exact hx (List.cons.inj hcut).1

/-! ## Identifiers as they are written -/

inductive Identifier where
  | bracketed (content : Token isEnclosed)
  | plain (word : Token isNameTail) (starts : word.text.head?.any isNameStart = true)

namespace Identifier

def bare : Identifier → Text
  | .bracketed content => content.text
  | .plain word _ => word.text

def write : Identifier → Text
  | .bracketed content => '[' :: (content.text ++ [']'])
  | .plain word _ => word.text

theorem bare_ne_nil (i : Identifier) : i.bare ≠ [] := by
  cases i with
  | bracketed content => exact content.nonempty
  | plain word starts => exact word.nonempty

theorem write_ne_nil (i : Identifier) : i.write ≠ [] := by
  cases i with
  | bracketed content => exact List.cons_ne_nil _ _
  | plain word starts => exact word.nonempty

theorem write_eq (i : Identifier) : i.write = i.bare ∨ i.write = '[' :: (i.bare ++ [']']) := by
  cases i with
  | bracketed content => exact .inr rfl
  | plain word starts => exact .inl rfl

theorem exists_plain_eq_cons {word : Token isNameTail}
    (starts : word.text.head?.any isNameStart = true) :
    ∃ x s, word.text = x :: s ∧ isNameStart x = true ∧ isNameTail x = true ∧
      ∀ y ∈ s, isNameTail y = true := by
  obtain ⟨x, s, hs, hx⟩ := word.exists_cons
  rw [hs] at starts
  exact ⟨x, s, hs, starts, hx, fun y hy => word.accepted y (by simp [hs, hy])⟩

theorem head?_write (i : Identifier) (v : Text) :
    ∀ x ∈ (i.write ++ v).head?, Text.isBlank x = false ∧ x ≠ '@' := by
  cases i with
  | bracketed content =>
      rintro x ⟨⟩
      exact ⟨rfl, by decide⟩
  | plain word starts =>
      obtain ⟨x, s, hs, hstart, hx, -⟩ := exists_plain_eq_cons starts
      rw [write, hs]
      rintro y ⟨⟩
      refine ⟨isBlank_eq_false_of_isNameTail hx, ?_⟩
      rintro rfl
      exact absurd hstart (by decide)

/-! ## Taking an identifier -/

/-- A plain word is followed by no more of it. -/
theorem takes_identifier (i : Identifier) {v : Text} (hv : ∀ x ∈ v.head?, isNameTail x = false) :
    Takes identifier i.write v := by
  intro c k r hs hk
  cases i with
  | bracketed content => exact run_alt_left (takes_bracketedPart content v c k r hs hk)
  | plain word starts =>
      obtain ⟨x, s, hword, hx, htail, hs'⟩ := exists_plain_eq_cons starts
      rw [write, hword] at hs hk
      rw [identifier,
        run_alt_right (run_bracketedPart_eq_none k hs (ne_of_isNameTail htail rfl)), run]
      refine (run_one_past hs hx).trans (run_many_past rfl hs' hv ?_)
      rwa [Cursor.past_past]

end Identifier

/-! ## Identifiers that are no keywords -/

def isPlainStart (c : Char) : Bool := Text.isAsciiLetter c || c == '_'

/-- In brackets any identifier; else a word that begins with an ASCII letter or an underscore
and is no keyword. -/
def Identifier.IsOrdinary : Identifier → Prop
  | .bracketed _ => True
  | .plain word _ => word.text.head?.any isPlainStart = true ∧ isKeyword word.text = false

theorem ascii_of_isPlainStart {c : Char} (h : isPlainStart c = true) : c.toNat < 128 := by
  simp only [isPlainStart, Text.isAsciiLetter, Text.isAsciiUpper, Text.isAsciiLower,
    Bool.or_eq_true, Bool.and_eq_true, decide_eq_true_eq, beq_iff_eq] at h
  rcases h with (h | h) | rfl
  · omega
  · omega
  · decide

theorem isKeyword_of_spells {a : Char} {letters u : Text} (h : Spells (a :: letters) u)
    (hstart : u.head?.any isPlainStart = true)
    (hletters : letters.all Text.staysAscii = true)
    (hkeyword : (keywords.map String.toList).contains ((a :: letters).map Text.foldCase) = true) :
    isKeyword u = true := by
  have hascii : ∀ x ∈ u, x.toNat < 128 := by
    cases h with
    | @cons _ x _ s hx hs =>
        refine List.forall_mem_cons.mpr ⟨ascii_of_isPlainStart hstart, ?_⟩
        exact Spells.forall_of hs fun b hb y hby =>
          Text.ascii_of_sameLetter hby (List.all_eq_true.mp hletters b hb)
  rw [isKeyword, Text.lower_of_ascii hascii, h.map_foldCase]
  obtain ⟨k, hk, hkeyword⟩ := List.mem_map.mp (List.contains_iff_mem.mp hkeyword)
  exact List.any_eq_true.mpr ⟨k, hk, by simp [hkeyword]⟩

end ProcCatalog.Sql
