import ProcCatalog.Proofs.Pattern.Exchanged
import ProcCatalog.Proofs.Text.Spaced

/-!
# Patterns that take a carriage return for a space

A pattern none of whose classes tells a carriage return from a space is met in a text with spaces
in place of its carriage returns exactly where it is met in the text itself.
-/

namespace ProcCatalog

open Text

/-! ## Places -/

def Cursor.spaced (c : Cursor) : Cursor where
  before := c.before.map toSpace
  rest := Text.spaced c.rest
  offset := c.offset
  marks := c.marks.map fun m => (m.1, Text.spaced m.2)

namespace Pattern

/-- No class of the pattern tells a carriage return from a space. -/
def likens : Pattern → Bool
  | .empty | .wordEdge | .lineStart | .textEnd => true
  | .one accepts | .many accepts | .few accepts | .notBehind accepts => Text.likens accepts
  | .seq p q | .alt p q => p.likens && q.likens
  | .repeated p | .notAhead p | .named _ p => p.likens

theorem blindTo_spacing (p : Pattern) : p.blindTo spacing = p.likens := by
  induction p with
  | seq p q ihp ihq | alt p q ihp ihq => rw [blindTo, likens, ihp, ihq]
  | repeated p ih | notAhead p ih | named name p ih => exact ih
  | _ => rfl

/-! ## Search -/

def Found.spaced (found : Found) : Found := ⟨found.start, found.stop.spaced⟩

variable {p : Pattern}

theorem matchAt_spaced (hp : p.likens = true) (c : Cursor) :
    p.matchAt c.spaced = (p.matchAt c).map Found.spaced :=
  matchAt_exchanged (p.blindTo_spacing.trans hp) c

theorem find?_spaced (hp : p.likens = true) (s : Text) :
    p.find? (spaced s) = (p.find? s).map Found.spaced :=
  find?_exchanged (p.blindTo_spacing.trans hp) s

theorem mark?_spaced (found : Found) (name : String) :
    found.spaced.mark? name = (found.mark? name).map spaced :=
  mark?_exchanged (e := spacing) found name

end Pattern

end ProcCatalog
