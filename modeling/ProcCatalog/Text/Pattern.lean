import ProcCatalog.Text.Basic
import ProcCatalog.Text.Blank
import ProcCatalog.Text.Fold

/-!
# Patterns

A pattern is tried at a place of a text. Where it leaves a choice, the preferred one is tried
first, and the others only if what follows cannot be met: the first branch of an alternative, the
longest run for `many` and `repeated`, the shortest for `few`. `run` takes what has to follow as
a function and answers with the place where that ended.
-/

namespace ProcCatalog

/-! ## Places in a text -/

/-- A place in a text, with the parts of the text that were marked on the way to it. -/
structure Cursor where
  before : Option Char
  rest : Text
  offset : Nat
  marks : List (String × Text)
  deriving DecidableEq, Repr

namespace Cursor

def start (s : Text) : Cursor := ⟨none, s, 0, []⟩

def step (c : Cursor) (x : Char) (s : Text) : Cursor :=
  { c with before := some x, rest := s, offset := c.offset + 1 }

/-- The text between a place and a later one. -/
def upTo (c d : Cursor) : Text := c.rest.take (d.offset - c.offset)

def mark (name : String) (s : Text) (c : Cursor) : Cursor :=
  { c with marks := (name, s) :: c.marks }

def beforeIsWord (c : Cursor) : Bool := c.before.any Text.isWord

def nextIsWord (c : Cursor) : Bool := c.rest.head?.any Text.isWord

end Cursor

/-! ## Patterns and how they are met -/

inductive Pattern where
  | empty
  | one (accepts : Char → Bool)
  | many (accepts : Char → Bool)
  | few (accepts : Char → Bool)
  | seq (first second : Pattern)
  | alt (first second : Pattern)
  | repeated (body : Pattern)
  | wordEdge
  | lineStart
  | textEnd
  | notAhead (body : Pattern)
  | notBehind (accepts : Char → Bool)
  | named (name : String) (body : Pattern)

namespace Pattern

abbrev Follow := Cursor → Option Cursor

def runMany (accepts : Char → Bool) (k : Follow) : Text → Cursor → Option Cursor
  | [], c => k c
  | x :: s, c => if accepts x then runMany accepts k s (c.step x s) <|> k c else k c

def runFew (accepts : Char → Bool) (k : Follow) : Text → Cursor → Option Cursor
  | [], c => k c
  | x :: s, c => k c <|> if accepts x then runFew accepts k s (c.step x s) else none

/-- Each round has to move on, so `rounds` need not exceed the length of the text. -/
def runRepeated (body : Cursor → Follow → Option Cursor) (k : Follow) :
    Nat → Cursor → Option Cursor
  | 0, c => k c
  | rounds + 1, c =>
    body c (fun d => if c.offset < d.offset then runRepeated body k rounds d else none) <|> k c

def run : Pattern → Cursor → Follow → Option Cursor
  | .empty, c, k => k c
  | .one accepts, c, k =>
    match c.rest with
    | [] => none
    | x :: s => if accepts x then k (c.step x s) else none
  | .many accepts, c, k => runMany accepts k c.rest c
  | .few accepts, c, k => runFew accepts k c.rest c
  | .seq p q, c, k => run p c fun d => run q d k
  | .alt p q, c, k => run p c k <|> run q c k
  | .repeated p, c, k => runRepeated (run p) k c.rest.length c
  | .wordEdge, c, k => if c.beforeIsWord != c.nextIsWord then k c else none
  | .lineStart, c, k => if c.before = none ∨ c.before = some '\n' then k c else none
  | .textEnd, c, k => if c.rest = [] ∨ c.rest = ['\n'] then k c else none
  | .notAhead p, c, k => if (run p c some).isSome then none else k c
  | .notBehind accepts, c, k => if c.before.any accepts then none else k c
  | .named name p, c, k => run p c fun d => k (d.mark name (c.upTo d))

/-! ## Search -/

structure Found where
  start : Nat
  stop : Cursor
  deriving DecidableEq, Repr

/-- The text marked last under a name. -/
def Found.mark? (found : Found) (name : String) : Option Text := found.stop.marks.lookup name

def matchAt (p : Pattern) (c : Cursor) : Option Found := (p.run c some).map fun d => ⟨c.offset, d⟩

/-- The first place, from a given one on, where the pattern is met. -/
def findFrom (p : Pattern) (before : Option Char) (offset : Nat) : Text → Option Found
  | [] => p.matchAt ⟨before, [], offset, []⟩
  | x :: s =>
    match p.matchAt ⟨before, x :: s, offset, []⟩ with
    | some found => some found
    | none => findFrom p (some x) (offset + 1) s

def find? (p : Pattern) (s : Text) : Option Found := p.findFrom none 0 s

def occursIn (p : Pattern) (s : Text) : Bool := (p.find? s).isSome

/-- The places where the pattern is met after the next `skip` characters, each behind the one
before it. A place of no extent at the very end is left out. -/
def allFrom (p : Pattern) : Nat → Option Char → Nat → Text → List Found
  | _, _, _, [] => []
  | skip + 1, _, offset, x :: s => allFrom p skip (some x) (offset + 1) s
  | 0, before, offset, x :: s =>
    match p.matchAt ⟨before, x :: s, offset, []⟩ with
    | some found =>
      found :: allFrom p (found.stop.offset - offset - 1) (some x) (offset + 1) s
    | none => allFrom p 0 (some x) (offset + 1) s

def findAll (p : Pattern) (s : Text) : List Found := p.allFrom 0 none 0 s

def textsIn (p : Pattern) (s : Text) : List Text :=
  (p.findAll s).map fun found => (s.drop found.start).take (found.stop.offset - found.start)

/-! ## Common patterns -/

def all (parts : List Pattern) : Pattern := parts.foldr .seq .empty

def any (branches : List Pattern) : Pattern := branches.foldr .alt (.one fun _ => false)

def option (p : Pattern) : Pattern := .alt p .empty

def many1 (accepts : Char → Bool) : Pattern := .seq (.one accepts) (.many accepts)

def char (c : Char) : Pattern := .one (· == c)

def keyword (letters : String) : Pattern :=
  all (letters.toList.map fun c => .one (Text.sameLetter c))

def blanks : Pattern := .many Text.isBlank

def blanks1 : Pattern := many1 Text.isBlank

def word1 : Pattern := many1 Text.isWord

end Pattern

end ProcCatalog
