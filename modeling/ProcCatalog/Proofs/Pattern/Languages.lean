import Mathlib.Computability.Language
import ProcCatalog.Proofs.Pattern.Spans

/-!
# Patterns as regular expressions

A pattern that looks at nothing but the characters it takes spans the texts of a regular language,
wherever it is tried.
-/

namespace ProcCatalog.Pattern

open scoped Computability

/-! ## Languages of patterns -/

def single (accepts : Char → Bool) : Language Char := {u | ∃ x, accepts x = true ∧ u = [x]}

def runs (accepts : Char → Bool) : Language Char := {u | ∀ x ∈ u, accepts x = true}

def runs1 (accepts : Char → Bool) : Language Char := {u | u ≠ [] ∧ ∀ x ∈ u, accepts x = true}

def spelling (letters : String) : Language Char := {u | Spells letters.toList u}

/-- The pattern is made of characters, runs, sequences, alternatives and rounds only. -/
def isRegular : Pattern → Bool
  | .empty | .one _ | .many _ | .few _ => true
  | .seq p q | .alt p q => p.isRegular && q.isRegular
  | .repeated p | .named _ p => p.isRegular
  | .wordEdge | .lineStart | .textEnd | .notAhead _ | .notBehind _ => false

def language : Pattern → Language Char
  | .empty => 1
  | .one accepts => single accepts
  | .many accepts | .few accepts => runs accepts
  | .seq p q => p.language * q.language
  | .alt p q => p.language + q.language
  | .repeated p => p.language∗
  | .named _ p => p.language
  | .wordEdge | .lineStart | .textEnd | .notAhead _ | .notBehind _ => 0

/-- Rounds of a pattern are pieces of its language, none of them empty. -/
private theorem rounds_iff {p : Pattern} {L : Language Char}
    (hp : ∀ before u rest, p.Spans before u rest ↔ u ∈ L) {before : Option Char} {u rest : Text} :
    Rounds p.Spans before u rest ↔ u ∈ L∗ := by
  rw [Language.mem_kstar_iff_exists_nonempty]
  constructor
  · intro h
    induction h with
    | done => exact ⟨[], rfl, by simp⟩
    | more moves first _ ih =>
        obtain ⟨pieces, rfl, hpieces⟩ := ih
        exact ⟨_ :: pieces, rfl, List.forall_mem_cons.mpr ⟨⟨(hp _ _ _).mp first, moves⟩, hpieces⟩⟩
  · rintro ⟨pieces, rfl, hpieces⟩
    induction pieces generalizing before with
    | nil => exact .done _ _
    | cons u pieces ih =>
        obtain ⟨⟨hu, hne⟩, hpieces⟩ := List.forall_mem_cons.mp hpieces
        exact .more hne ((hp _ _ _).mpr hu) (ih hpieces)

theorem spans_iff_mem_language {p : Pattern} (hp : p.isRegular = true) {before : Option Char}
    {u rest : Text} : p.Spans before u rest ↔ u ∈ p.language := by
  induction p generalizing before u rest with
  | empty => exact Iff.rfl
  | one => exact Iff.rfl
  | many => exact Iff.rfl
  | few => exact Iff.rfl
  | seq p q ihp ihq =>
      rw [isRegular, Bool.and_eq_true] at hp
      rw [language, Language.mem_mul]
      constructor
      · rintro ⟨v, w, rfl, hv, hw⟩
        exact ⟨v, (ihp hp.1).mp hv, w, (ihq hp.2).mp hw, rfl⟩
      · rintro ⟨v, hv, w, hw, rfl⟩
        exact ⟨v, w, rfl, (ihp hp.1).mpr hv, (ihq hp.2).mpr hw⟩
  | alt p q ihp ihq =>
      rw [isRegular, Bool.and_eq_true] at hp
      exact or_congr (ihp hp.1) (ihq hp.2)
  | repeated p ih => exact rounds_iff fun _ _ _ => ih hp
  | named _ p ih => exact ih hp
  | _ => cases hp

theorem mem_language_iff {p : Pattern} (hp : p.isRegular = true) {u : Text} :
    u ∈ p.language ↔ p.Spans none u [] := (spans_iff_mem_language hp).symm

/-! ## Texts that begin with a word of a language -/

def BeginsWith (L : Language Char) (s : Text) : Prop := ∃ u ∈ L, ∃ rest, s = u ++ rest

theorem BeginsWith.mono {L M : Language Char} (h : L ≤ M) {s : Text} (hs : BeginsWith L s) :
    BeginsWith M s := by
  obtain ⟨u, hu, rest, rfl⟩ := hs
  exact ⟨u, h hu, rest, rfl⟩

theorem beginsWith_add {L M : Language Char} {s : Text} :
    BeginsWith (L + M) s ↔ BeginsWith L s ∨ BeginsWith M s := by
  constructor
  · rintro ⟨u, hu | hu, hs⟩
    · exact .inl ⟨u, hu, hs⟩
    · exact .inr ⟨u, hu, hs⟩
  · rintro (⟨u, hu, hs⟩ | ⟨u, hu, hs⟩)
    · exact ⟨u, .inl hu, hs⟩
    · exact ⟨u, .inr hu, hs⟩

theorem begins_iff_beginsWith {p : Pattern} (hp : p.isRegular = true) (before : Option Char)
    {s : Text} : p.Begins before s ↔ BeginsWith p.language s := by
  constructor
  · rintro ⟨u, rest, hs, hspan⟩
    exact ⟨u, (spans_iff_mem_language hp).mp hspan, rest, hs⟩
  · rintro ⟨u, hu, rest, hs⟩
    exact ⟨u, rest, hs, (spans_iff_mem_language hp).mpr hu⟩

/-- A language that is that of a pattern is decided by trying the pattern. -/
@[reducible] def decidableBeginsWith {p : Pattern} (hp : p.isRegular = true) {L : Language Char}
    (hL : p.language = L) : DecidablePred (BeginsWith L) := fun s =>
  decidable_of_iff (p.Begins none s) (by rw [begins_iff_beginsWith hp none, hL])

/-! ## Languages of common patterns -/

theorem language_all_cons (p : Pattern) (ps : List Pattern) :
    (all (p :: ps)).language = p.language * (all ps).language := rfl

theorem language_all_nil : (all []).language = 1 := rfl

theorem language_option (p : Pattern) : (option p).language = p.language + 1 := rfl

theorem language_char (c : Char) : (char c).language = {[c]} := by
  ext u
  rw [mem_language_iff rfl, spans_char]
  rfl

theorem language_many1 (accepts : Char → Bool) : (many1 accepts).language = runs1 accepts := by
  ext u
  rw [mem_language_iff rfl, spans_many1]
  rfl

theorem isRegular_keyword (letters : String) : (keyword letters).isRegular = true := by
  rw [keyword]
  induction letters.toList with
  | nil => rfl
  | cons c letters ih => exact ih

theorem language_keyword (letters : String) : (keyword letters).language = spelling letters := by
  ext u
  rw [mem_language_iff (isRegular_keyword letters), spans_keyword_iff]
  rfl

end ProcCatalog.Pattern
