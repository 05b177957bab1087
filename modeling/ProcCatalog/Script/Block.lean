import ProcCatalog.Script.Batch
import ProcCatalog.Text.Pattern

/-!
# Procedure blocks

A batch is a procedure block when its trimmed text begins with the creation of a procedure, one
leading block comment and SET lines left aside. `Splitter` counts what it has seen.
-/

namespace ProcCatalog.Script

open Pattern

structure Block where
  text : Text
  ordinal : Nat := 0
  startLine : Int := 1
  deriving DecidableEq, Repr

def leadingComment : Pattern :=
  all [char '/', char '*', .few fun _ => true, char '*', char '/', blanks]

def settingLine : Pattern :=
  all [keyword "SET", blanks1, word1, blanks1, word1, blanks, option (char '\r'), char '\n']

def createProcedure : Pattern :=
  all [keyword "CREATE", blanks1, option (all [keyword "OR", blanks1, keyword "ALTER", blanks1]),
    keyword "PROC", option (keyword "EDURE")]

def blockStart : Pattern :=
  all [option leadingComment, .repeated settingLine, blanks, createProcedure, .one Text.isBlank]

def isProcedureBlock (s : Text) : Bool := (blockStart.matchAt (.start s)).isSome

def blockOf? (batch : Batch) (ordinal : Nat) : Option Block :=
  let text := Text.trim batch.text
  if !text.isEmpty && isProcedureBlock text then some ⟨text, ordinal, batch.startLine⟩ else none

def blocks (bs : List Batch) : List Block := bs.zipIdx.filterMap fun (b, i) => blockOf? b i

/-! ## Counting over several scripts -/

structure Splitter where
  batchesSeen : Nat := 0
  blocksFound : Nat := 0
  deriving DecidableEq, Repr

def Splitter.splitLines (splitter : Splitter) (lines : List Text) : List Block × Splitter :=
  let bs := batches lines
  let found := blocks bs
  (found, ⟨splitter.batchesSeen + bs.length, splitter.blocksFound + found.length⟩)

def Splitter.split (splitter : Splitter) (script : Text) : List Block × Splitter :=
  splitter.splitLines (Text.lines script)

end ProcCatalog.Script
