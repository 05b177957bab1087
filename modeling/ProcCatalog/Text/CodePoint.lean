import ProcCatalog.Text.Lower

/-!
# Texts with unpaired surrogates

A document may write half of a surrogate pair where a character is meant. A half is no character,
and a text that holds one cannot be encoded. A raw text is a list of code points, each a character
or a half; every text is a raw text.
-/

namespace ProcCatalog

inductive CodePoint where
  | char (c : Char)
  /-- The surrogate at a place among the 2048 code points from U+D800 on. -/
  | half (place : Fin 2048)
  deriving DecidableEq, Repr

namespace CodePoint

def toNat : CodePoint → Nat
  | char c => c.toNat
  | half place => 0xd800 + place

def char? : CodePoint → Option Char
  | char c => some c
  | half _ => none

/-- A property of characters; no half has it. -/
def satisfies (p : Char → Bool) : CodePoint → Bool
  | char c => p c
  | half _ => false

def le (c d : CodePoint) : Bool := decide (c.toNat ≤ d.toNat)

end CodePoint

abbrev RawText := List CodePoint

def Text.raw (s : Text) : RawText := s.map .char

instance Text.coeRaw : Coe Text RawText := ⟨Text.raw⟩

namespace RawText

/-- The text, if there are no halves in it. -/
def text? : RawText → Option Text
  | [] => some []
  | .char c :: s => (text? s).map (c :: ·)
  | .half _ :: _ => none

theorem text?_raw (s : Text) : text? (Text.raw s) = some s := by
  induction s with
  | nil => rfl
  | cons c s ih => simp_all [text?, Text.raw]

theorem eq_raw_of_text? {s : RawText} {t : Text} (h : text? s = some t) : s = Text.raw t := by
  induction s generalizing t with
  | nil => simp_all [text?, Text.raw]
  | cons c s ih =>
    cases c with
    | half _ => simp [text?] at h
    | char c =>
      obtain ⟨u, hu, rfl⟩ := Option.map_eq_some_iff.1 h
      simp [Text.raw, ih hu]

def isWhole (s : RawText) : Bool := (text? s).isSome

def le : RawText → RawText → Bool := lexLe CodePoint.le

/-- Small letters; a half is neither a letter nor skipped, so case rules do not look past it. -/
def lower (s : RawText) : RawText :=
  go [] s
where
  go (run : Text) : RawText → RawText
    | [] => Text.raw (Text.lower run.reverse)
    | .char c :: s => go (c :: run) s
    | .half n :: s => Text.raw (Text.lower run.reverse) ++ .half n :: go [] s

end RawText

end ProcCatalog
