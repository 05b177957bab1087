import ProcCatalog.Sql.Comment
import ProcCatalog.Sql.TopLevel
import ProcCatalog.Text.Pattern

/-!
# Parameters

A parameter list is written with or without parentheses around it, and the options of the
procedure may follow it. A piece of the list that is no declaration is passed over.
-/

namespace ProcCatalog.Signature

open Pattern

inductive Direction where
  | input
  | output
  deriving DecidableEq, Repr

def Direction.label : Direction → String
  | .input => "IN"
  | .output => "OUTPUT"

structure Parameter where
  name : Text
  dataType : Text
  direction : Direction := .input
  default : Option Text := none
  readonly : Bool := false
  deriving DecidableEq, Repr

/-! ## Declarations -/

def typePart : Pattern :=
  .alt (all [char '[', many1 (· != ']'), char ']'])
    (many1 fun c => Text.isWord c || c == '$' || c == '#')

def typeName : Pattern :=
  all [typePart, .repeated (all [blanks, char '.', blanks, typePart]),
    option (all [blanks, char '(', .many fun c => c != '(' && c != ')', char ')'])]

def declaration : Pattern :=
  all [
    .named "name"
      (.seq (char '@') (many1 fun c => Text.isWord c || c == '@' || c == '#' || c == '$')),
    blanks1, option (.seq (keyword "AS") blanks1),
    .named "type" typeName,
    option (all [blanks, char '=', blanks, .named "default" (.few fun _ => true)]),
    option (.seq blanks1 (.named "direction" (any [keyword "OUTPUT", keyword "OUT"]))),
    option (.seq blanks1 (.named "readonly" (keyword "READONLY"))),
    blanks, .textEnd]

/-- Drops the blanks before an opening parenthesis of a collapsed text. -/
def tightenParens : Text → Text
  | [] => []
  | c :: s =>
    if Text.isBlank c && s.head? == some '(' then tightenParens s else c :: tightenParens s

/-- A default without the comma that may trail it; a blank one is none. -/
def cleanDefault (s : Text) : Option Text :=
  let t := Text.trim s
  let u := if t.getLast? = some ',' then Text.trim t.dropLast else t
  if u.isEmpty then none else some u

def Parameter.ofPiece? (piece : Text) : Option Parameter :=
  (declaration.matchAt (.start (Text.trim piece))).map fun found =>
    { name := (found.mark? "name").getD []
      dataType := tightenParens (Text.collapse ((found.mark? "type").getD []))
      direction := if (found.mark? "direction").isSome then .output else .input
      default := (found.mark? "default").bind cleanDefault
      readonly := (found.mark? "readonly").isSome }

/-! ## Lists -/

def optionWord : Pattern :=
  any [keyword "RECOMPILE", keyword "ENCRYPTION", keyword "NATIVE_COMPILATION",
    keyword "SCHEMABINDING",
    all [keyword "EXEC", option (keyword "UTE"), blanks1, keyword "AS", blanks1,
      .alt (all [char Sql.quoteMark, .many (· != Sql.quoteMark), char Sql.quoteMark]) word1]]

def optionClause : Pattern :=
  .alt
    (all [blanks1, keyword "WITH", blanks1, optionWord,
      .repeated (all [blanks, char ',', blanks, optionWord])])
    (all [blanks1, keyword "FOR", blanks1, keyword "REPLICATION"])

/-- Clauses of procedure options up to the end of the text. -/
def trailingOptions : Pattern :=
  all [optionClause, .repeated optionClause, blanks, .textEnd]

def dropOptions (s : Text) : Text :=
  match trailingOptions.find? s with
  | some found => s.take found.start ++ found.stop.rest
  | none => s

def parseParameters (s : Text) : List Parameter :=
  let list := Text.trim (Sql.stripComments s)
  if list.isEmpty then []
  else
    (Sql.splitTopLevel [','] (Sql.unwrapParens (dropOptions list))).filterMap Parameter.ofPiece?

end ProcCatalog.Signature
