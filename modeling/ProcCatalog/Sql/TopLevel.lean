import ProcCatalog.Fault
import ProcCatalog.Text.Blank

/-!
# Parentheses, literals and bracketed identifiers

A single quote opens a literal, and the next one ends it; a doubled quote so closes and opens it
again. A left bracket opens an identifier when a right bracket follows somewhere. Inside of
either, parentheses and separators have no meaning.
-/

namespace ProcCatalog.Sql

def quoteMark : Char := '\x27'

inductive Region where
  | code
  | literal
  | bracketed
  deriving DecidableEq, Repr

/-- The region behind a character, given the region before it and the text after it. -/
def Region.next (region : Region) (c : Char) (s : Text) : Region :=
  match region with
  | .code =>
    if c = quoteMark then .literal else if c = '[' ∧ ']' ∈ s then .bracketed else .code
  | .literal => if c = quoteMark then .code else .literal
  | .bracketed => if c = ']' then .code else .bracketed

/-! ## Splitting outside parentheses -/

def deepen (depth : Nat) (c : Char) : Nat :=
  if c = '(' then depth + 1 else if c = ')' then depth - 1 else depth

/-- Characters that have a meaning of their own never separate. -/
def separates (separator : Text) (region : Region) (depth : Nat) (c : Char) : Bool :=
  separator == [c] && region == .code && depth == 0 &&
    c != quoteMark && c != '[' && c != '(' && c != ')'

/-- The pieces of `piece.reverse ++ s`, where `piece` holds no separator. -/
def piecesFrom (separator : Text) (region : Region) (depth : Nat) (piece : Text) :
    Text → List Text
  | [] => [piece.reverse]
  | c :: s =>
    if separates separator region depth c then
      piece.reverse :: piecesFrom separator .code 0 [] s
    else
      piecesFrom separator (region.next c s) (if region = .code then deepen depth c else depth)
        (c :: piece) s

/-- The trimmed pieces between separators that stand outside parentheses, literals and bracketed
identifiers; blank pieces are left out. -/
def splitTopLevel (separator s : Text) : List Text :=
  ((piecesFrom separator .code 0 [] s).map Text.trim).filter (!·.isEmpty)

/-! ## The closing parenthesis -/

def closingFrom (region : Region) (depth : Int) (index : Nat) : Text → Option Nat
  | [] => none
  | c :: s =>
    if region = .code ∧ c = ')' ∧ depth = 1 then some index
    else
      closingFrom (region.next c s)
        (if region = .code then
          (if c = '(' then depth + 1 else if c = ')' then depth - 1 else depth)
          else depth)
        (index + 1) s

/-- The place of the parenthesis that closes the one at `start`. -/
def closingParen? (s : Text) (start : Nat) : Option Nat := closingFrom .code 0 start (s.drop start)

/-- The closing parenthesis in the end of a text or, behind that end, in the whole text. A place in
the end is counted from behind, one in the whole text from the front. What a quote or a bracket
opens is closed as if the walk went on in the text, and then it does; behind the last character
that is the whole text. -/
def closingFromEnd (s : Text) (depth : Int) : Text → Option Int
  | [] => (closingFrom .code depth 0 s).map Int.ofNat
  | c :: t =>
    let rest := if t.isEmpty then s else t
    let goOn (region : Region) : Option Int :=
      (closingFrom region depth (s.length - rest.length) rest).map Int.ofNat
    if c = quoteMark then goOn .literal
    else if c = '[' ∧ ']' ∈ rest then goOn .bracketed
    else if c = ')' ∧ depth = 1 then some (-(t.length + 1 : Nat))
    else closingFromEnd s (if c = '(' then depth + 1 else if c = ')' then depth - 1 else depth) t

/-- The place of the parenthesis that closes the one at `start`, which may be counted from the end
of the text, the last character being at -1. -/
def closingParenAt (s : Text) (start : Int) : Outcome (Option Int) :=
  if 0 ≤ start then .ok ((closingParen? s start.toNat).map Int.ofNat)
  else if start < -s.length then .error .outOfRange
  else .ok (closingFromEnd s 0 (s.drop (s.length - (-start).toNat)))

/-! ## Enclosing parentheses -/

/-- The first parenthesis is closed before the end of the text. -/
def closesEarly (depth : Nat) : Text → Bool
  | [] => false
  | c :: s =>
    if c = '(' then closesEarly (depth + 1) s
    else if c = ')' then (decide (depth = 1) && !s.isEmpty) || closesEarly (depth - 1) s
    else closesEarly depth s

/-- Drops the parentheses around the whole of a text, if there are any. -/
def unwrapParens (s : Text) : Text :=
  let t := Text.trim s
  if t.head? = some '(' && t.getLast? = some ')' && !closesEarly 0 t then
    Text.trim (t.drop 1).dropLast
  else t

end ProcCatalog.Sql
