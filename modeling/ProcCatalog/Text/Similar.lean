import ProcCatalog.Text.Basic

/-!
# Similar texts

The likeness of two texts is twice the number of characters in common blocks over the number of
all characters. The longest common block is taken first, and then the longest ones before it and
behind it.
-/

namespace ProcCatalog.Text

def commonStart : Text → Text → Nat
  | c :: s, d :: t => if c = d then commonStart s t + 1 else 0
  | _, _ => 0

structure Block where
  length : Nat
  first : Nat
  second : Nat
  deriving DecidableEq, Repr

def rests : Text → List Text
  | [] => []
  | c :: s => (c :: s) :: rests s

/-- The longest common block; of several the first in `s`, and then the first in `t`. -/
def longestBlock (s t : Text) : Block :=
  let blocks := (rests s).zipIdx.flatMap fun (u, i) =>
    (rests t).zipIdx.map fun (v, j) => (⟨commonStart u v, i, j⟩ : Block)
  blocks.foldl (fun best b => if best.length < b.length then b else best) ⟨0, 0, 0⟩

/-- The number of characters in common blocks; `rounds` bounds the nesting. -/
def commonLength : Nat → Text → Text → Nat
  | 0, _, _ => 0
  | rounds + 1, s, t =>
    let b := longestBlock s t
    if b.length = 0 then 0
    else
      commonLength rounds (s.take b.first) (t.take b.second) + b.length +
        commonLength rounds (s.drop (b.first + b.length)) (t.drop (b.second + b.length))

/-- Likeness of at least three fifths. -/
def isSimilar (s t : Text) : Bool :=
  3 * (s.length + t.length) ≤ 10 * commonLength s.length s t

/-- Whether `a` is at least as like to `s` as `b`; of two equally like the greater comes first. -/
def closerTo (s a b : Text) : Bool :=
  let x := commonLength a.length a s * (b.length + s.length)
  let y := commonLength b.length b s * (a.length + s.length)
  y < x || (x == y && le b a)

def similarTo (s : Text) (candidates : List Text) : List Text :=
  (sortBy (closerTo s) (candidates.filter fun c => isSimilar c s)).take 3

end ProcCatalog.Text
