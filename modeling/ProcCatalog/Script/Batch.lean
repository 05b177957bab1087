import ProcCatalog.Text.Fold
import ProcCatalog.Text.Line

/-!
# Batches

A script is cut into batches by terminator lines, which hold the word GO and nothing else but
blanks behind it. A batch knows the number of its first line, counted from one.
-/

namespace ProcCatalog.Script

structure Batch where
  startLine : Nat
  text : Text
  deriving DecidableEq, Repr

def isTerminator (line : Text) : Bool :=
  match Text.trimEndWith (· == '\n') line with
  | g :: o :: s =>
    Text.sameLetter 'G' g && Text.sameLetter 'O' o &&
      s.all fun c => c == ' ' || c == '\t' || c == '\r'
  | _ => false

/-- Batches of the lines from `line` on, the lines since `startLine` being in `kept`, last first.
-/
def batchesFrom (startLine line : Nat) (kept : List Text) : List Text → List Batch
  | [] => if kept.isEmpty then [] else [⟨startLine, kept.reverse.flatten⟩]
  | l :: ls =>
    if isTerminator l then
      ⟨startLine, kept.reverse.flatten⟩ :: batchesFrom (line + 1) (line + 1) [] ls
    else batchesFrom startLine (line + 1) (l :: kept) ls

def batches (lines : List Text) : List Batch := batchesFrom 1 1 [] lines

end ProcCatalog.Script
