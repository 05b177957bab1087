import ProcCatalog.Text.Basic

/-!
# Blanks

A blank is a white-space character or one of the four separators U+001C to U+001F.
-/

namespace ProcCatalog.Text

def isBlank (c : Char) : Bool :=
  let n := c.toNat
  (9 ≤ n && n ≤ 13) || (28 ≤ n && n ≤ 32) || n == 0x85 || n == 0xa0 || n == 0x1680 ||
    (0x2000 ≤ n && n ≤ 0x200a) || n == 0x2028 || n == 0x2029 || n == 0x202f || n == 0x205f ||
    n == 0x3000

theorem isBlank_of_isWhitespace {c : Char} (h : c.isWhitespace) : isBlank c := by
  simp only [Char.isWhitespace, Bool.or_eq_true, decide_eq_true_eq] at h
  rcases h with ((rfl | rfl) | rfl) | rfl <;> rfl

def trim (s : Text) : Text := trimWith isBlank s

def trimStart (s : Text) : Text := s.dropWhile isBlank

/-- Writes one space for each run of blanks, and none at the ends. -/
def collapse (s : Text) : Text :=
  trim (go false s)
where
  go : Bool → Text → Text
    | _, [] => []
    | inRun, c :: s =>
      if isBlank c then (if inRun then go true s else ' ' :: go true s) else c :: go false s

end ProcCatalog.Text
