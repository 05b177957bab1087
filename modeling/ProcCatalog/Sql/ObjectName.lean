import ProcCatalog.Text.CodePoint
import ProcCatalog.Text.Pattern

/-!
# Object names

A name has parts joined by dots; a part is a plain word or an identifier in brackets.
-/

namespace ProcCatalog.Sql

open Pattern

def isBracket (c : Char) : Bool := c == '[' || c == ']'

/-- An identifier in brackets, on one line. -/
def bracketedPart : Pattern :=
  all [char '[', many1 fun c => c != ']' && c != '\r' && c != '\n', char ']']

def namePart : Pattern :=
  .alt bracketedPart (many1 fun c => c != '.' && !Text.isBlank c)

/-- The parts of a name, without brackets. -/
def nameParts (s : Text) : List Text := (namePart.textsIn s).map (Text.trimWith isBracket)

/-- The last part of a name as it is written in a listing: what follows the last dot. -/
def bareName (s : RawText) : RawText :=
  Text.trimWith (CodePoint.satisfies isBracket) (Text.afterLast (.char '.') s)

/-! ## Names in statements -/

def isNameTail (c : Char) : Bool := Text.isWord c || c == '$' || c == '#' || c == '@'

def identifier : Pattern :=
  .alt bracketedPart
    (.seq (.one fun c => Text.isPlainLetter c || c == '_') (.many isNameTail))

def furtherPart (next : Pattern) : Pattern :=
  option (all [blanks, char '.', blanks, identifier, next])

/-- One to four identifiers joined by dots. -/
def objectName : Pattern :=
  .seq identifier (furtherPart (furtherPart (furtherPart .empty)))

/-- Neither the name goes on here nor another part follows. -/
def nameEnd : Pattern :=
  .notAhead (.alt (.one fun c => isNameTail c || c == ']') (.seq blanks (char '.')))

end ProcCatalog.Sql
