import ProcCatalog.Sql.TopLevel
import ProcCatalog.Text.Pattern

/-!
# Where the header ends

The word AS stands between the parameters of a procedure and its body. Five strategies look for
it, the strictest first, and the first that finds one decides.
-/

namespace ProcCatalog.Signature

open Pattern

inductive Strategy where
  | ownLine
  | parenThenAs
  | endOfLine
  | lineStart
  | anywhere
  deriving DecidableEq, Repr

def Strategy.label : Strategy → String
  | .ownLine => "own-line"
  | .parenThenAs => "paren-then-as"
  | .endOfLine => "end-of-line"
  | .lineStart => "line-start"
  | .anywhere => "anywhere"

/-- The parameters end at `start`, and the body begins at `stop`. -/
structure Boundary where
  strategy : Strategy
  start : Nat
  stop : Nat
  deriving DecidableEq, Repr

/-! ## Patterns -/

def spaces : Pattern := .many fun c => c == ' ' || c == '\t'

def lineBreak : Pattern := .seq (option (char '\r')) (char '\n')

def asOnOwnLine : Pattern := all [char '\n', spaces, keyword "AS", spaces, lineBreak]

def asAtLineEnd : Pattern := all [.wordEdge, keyword "AS", spaces, lineBreak]

def asAfterParen : Pattern := all [char ')', blanks, keyword "AS", .wordEdge]

def asAtLineStart : Pattern := all [.lineStart, spaces, keyword "AS", .wordEdge]

def asAnywhere : Pattern := all [.one Text.isBlank, keyword "AS", .wordEdge]

/-! ## Strategies -/

def boundaryOf (strategy : Strategy) (found : Found) : Boundary :=
  ⟨strategy, found.start, found.stop.offset⟩

/-- A line with AS alone, unless an earlier line of the header already ends with AS. -/
def ownLine? (s : Text) : Option Boundary :=
  match asOnOwnLine.find? s with
  | none => none
  | some found =>
    match asAtLineEnd.find? (s.take found.stop.offset) with
    | some earlier =>
      if earlier.start < found.start then none else some (boundaryOf .ownLine found)
    | none => some (boundaryOf .ownLine found)

/-- AS behind the parenthesis that closes the parameter list. -/
def parenThenAs? (s : Text) : Option Boundary :=
  let list := Text.trimStart s
  if list.head? = some '(' then
    match Sql.closingParen? s (s.length - list.length) with
    | none => none
    | some close =>
      match asAfterParen.matchAt ⟨none, s.drop close, close, []⟩ with
      | none => none
      | some found => some ⟨.parenThenAs, close + 1, found.stop.offset⟩
  else none

def Strategy.find? (s : Text) : Strategy → Option Boundary
  | .ownLine => ownLine? s
  | .parenThenAs => parenThenAs? s
  | .endOfLine => (asAtLineEnd.find? s).map (boundaryOf .endOfLine)
  | .lineStart => (asAtLineStart.find? s).map (boundaryOf .lineStart)
  | .anywhere => (asAnywhere.find? s).map (boundaryOf .anywhere)

/-- From the strictest to the loosest. -/
def strategies : List Strategy := [.ownLine, .parenThenAs, .endOfLine, .lineStart, .anywhere]

def boundary? (s : Text) : Option Boundary := strategies.findSome? (Strategy.find? s)

end ProcCatalog.Signature
