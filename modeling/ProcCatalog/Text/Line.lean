import ProcCatalog.Text.Basic
import ProcCatalog.Text.Blank

/-!
# Lines

A text is cut into lines behind each line break; a carriage return and the line feed after it are
one break. Which characters break a line is a parameter: any of ten for lines of prose, a line
feed or a carriage return for lines of a file.
-/

namespace ProcCatalog.Text

def isLineBreak (c : Char) : Bool :=
  let n := c.toNat
  (10 ≤ n && n ≤ 13) || (28 ≤ n && n ≤ 30) || n == 0x85 || n == 0x2028 || n == 0x2029

def isFileLineBreak (c : Char) : Bool := c == '\n' || c == '\r'

/-- The lines of `line.reverse ++ s`, where `line` holds no break, each with its break. -/
def linesFrom (breaks : Char → Bool) (line : Text) : Text → List Text
  | [] => if line.isEmpty then [] else [line.reverse]
  | '\r' :: '\n' :: s => ('\n' :: '\r' :: line).reverse :: linesFrom breaks [] s
  | c :: s =>
    if breaks c then (c :: line).reverse :: linesFrom breaks [] s
    else linesFrom breaks (c :: line) s

/-- The lines, each with its break. -/
def lines (s : Text) : List Text := linesFrom isLineBreak [] s

def fileLines (s : Text) : List Text := linesFrom isFileLineBreak [] s

theorem flatten_linesFrom (breaks : Char → Bool) (line s : Text) :
    (linesFrom breaks line s).flatten = line.reverse ++ s := by
  fun_induction linesFrom breaks line s with
  | case1 line h => simp_all
  | case2 line h => simp
  | case3 line s ih => simp [ih]
  | case4 line c s h hb ih => simp [ih]
  | case5 line c s h hb ih => simp [ih]

theorem flatten_lines (s : Text) : (lines s).flatten = s := flatten_linesFrom ..

theorem flatten_fileLines (s : Text) : (fileLines s).flatten = s := flatten_linesFrom ..

def withoutBreak (line : Text) : Text := line.filter fun c => !isLineBreak c

/-- The lines without their breaks. -/
def bareLines (s : Text) : List Text := (lines s).map withoutBreak

/-- The number of lines from the first that is not blank to the last. -/
def lineCount (s : Text) : Nat := (bareLines (trim s)).length

/-- The first lines, from the first that is not blank. -/
def preview (limit : Int) (s : Text) : Text := joinWith ['\n'] (upTo limit (bareLines (trim s)))

/-- Writes every line break of a file as a line feed. -/
def unifyBreaks : Text → Text
  | [] => []
  | '\r' :: '\n' :: s => '\n' :: unifyBreaks s
  | c :: s => (if c == '\r' then '\n' else c) :: unifyBreaks s

end ProcCatalog.Text
