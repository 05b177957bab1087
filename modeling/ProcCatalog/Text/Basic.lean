/-!
# Texts

A text is the list of its code points. Texts are ordered by code point, and lists of texts by
their first difference. Sorting is stable: elements that tie keep their order.
-/

namespace ProcCatalog

abbrev Text := List Char

/-! ## Order -/

/-- Compares two lists at their first difference; a proper beginning comes first. -/
def lexLe {α : Type} (le : α → α → Bool) : List α → List α → Bool
  | [], _ => true
  | _ :: _, [] => false
  | x :: xs, y :: ys => if le x y then (if le y x then lexLe le xs ys else true) else false

def insertBy {α : Type} (le : α → α → Bool) (x : α) : List α → List α
  | [] => [x]
  | y :: ys => if le x y then x :: y :: ys else y :: insertBy le x ys

def sortBy {α : Type} (le : α → α → Bool) (xs : List α) : List α :=
  xs.foldr (insertBy le) []

theorem insertBy_perm {α : Type} (le : α → α → Bool) (x : α) (ys : List α) :
    (insertBy le x ys).Perm (x :: ys) := by
  induction ys with
  | nil => exact .refl _
  | cons y ys ih =>
    unfold insertBy
    split
    · exact .refl _
    · exact (ih.cons y).trans (.swap x y ys)

theorem sortBy_perm {α : Type} (le : α → α → Bool) (xs : List α) : (sortBy le xs).Perm xs := by
  induction xs with
  | nil => exact .refl _
  | cons x xs ih => exact (insertBy_perm le x _).trans (ih.cons x)

/-- Keeps the first of the elements that are equal. -/
def distinct {α : Type} [DecidableEq α] : List α → List α
  | [] => []
  | x :: xs => x :: (distinct xs).filter (fun y => decide (y ≠ x))

/-- The first `limit` elements; a negative limit counts from the end. -/
def upTo {α : Type} (limit : Int) (xs : List α) : List α :=
  if 0 ≤ limit then xs.take limit.toNat else xs.take (xs.length - (-limit).toNat)

namespace Text

def charLe (c d : Char) : Bool := decide (c.toNat ≤ d.toNat)

def le : Text → Text → Bool := lexLe charLe

def sorted (texts : List Text) : List Text := sortBy le texts

def sortedSet (texts : List Text) : List Text := sorted (distinct texts)

/-! ## Cutting and joining -/

def joinWith {α : Type} (separator : List α) (parts : List (List α)) : List α :=
  separator.intercalate parts

def trimEndWith {α : Type} (drop : α → Bool) (s : List α) : List α :=
  (s.reverse.dropWhile drop).reverse

def trimWith {α : Type} (drop : α → Bool) (s : List α) : List α :=
  trimEndWith drop (s.dropWhile drop)

/-- What follows the last occurrence of an element, or the whole list. -/
def afterLast {α : Type} [BEq α] (c : α) (s : List α) : List α :=
  (s.reverse.takeWhile (· != c)).reverse

/-- The parts between the occurrences of a character, empty parts included. -/
def partsAt (c : Char) : Text → List Text
  | [] => [[]]
  | d :: s =>
    if d = c then [] :: partsAt c s
    else
      match partsAt c s with
      | [] => [[d]]
      | part :: parts => (d :: part) :: parts

def startsWith (start s : Text) : Bool := start.isPrefixOf s

/-! ## Numerals -/

def ofNat (n : Nat) : Text := Nat.toDigits 10 n

def ofInt : Int → Text
  | .ofNat n => ofNat n
  | .negSucc n => '-' :: ofNat (n + 1)

end Text

end ProcCatalog
