import ProcCatalog.Text.Integer
import ProcCatalog.Value.Basic

/-!
# Reading JSON

The grammar is that of JSON with the number words NaN, Infinity and -Infinity added. A fault of
grammar names its cause and its place. Of several members with one key the last counts, at the
place of the first. An escape may write a surrogate that has no partner. Whole numbers with too
many digits are refused, and so are lists and objects that are nested too deep.
-/

namespace ProcCatalog.Value

/-! ## Faults -/

inductive ReadCause where
  | valueExpected
  | nameExpected
  | colonExpected
  | commaExpected
  | extraData
  | unterminatedString
  | controlCharacter
  | badEscape
  | badUnicodeEscape
  | byteOrderMark
  deriving DecidableEq, Repr

def ReadCause.label : ReadCause → String
  | valueExpected => "Expecting value"
  | nameExpected => "Expecting property name enclosed in double quotes"
  | colonExpected => "Expecting ':' delimiter"
  | commaExpected => "Expecting ',' delimiter"
  | extraData => "Extra data"
  | unterminatedString => "Unterminated string starting at"
  | controlCharacter => "Invalid control character at"
  | badEscape => "Invalid \\escape"
  | badUnicodeEscape => "Invalid \\uXXXX escape"
  | byteOrderMark => "Unexpected UTF-8 BOM (decode using utf-8-sig)"

/-- Offsets count from zero, lines and columns from one. -/
structure ReadFault where
  cause : ReadCause
  offset : Nat
  line : Nat
  column : Nat
  deriving DecidableEq, Repr

def ReadFault.message (f : ReadFault) : Text :=
  f.cause.label.toList ++ ": line ".toList ++ Text.ofNat f.line ++ " column ".toList ++
    Text.ofNat f.column ++ " (char ".toList ++ Text.ofNat f.offset ++ [')']

/-- The fault at the place of a text where `rest` is left. -/
def ReadFault.of (s : Text) (cause : ReadCause) (rest : Text) : ReadFault :=
  let read := s.take (s.length - rest.length)
  ⟨cause, read.length, read.count '\n' + 1, (read.reverse.takeWhile (· != '\n')).length + 1⟩

inductive ReadError where
  | malformed (fault : ReadFault)
  | tooManyDigits (count : Nat)
  | tooDeep
  deriving DecidableEq, Repr

/-- Why a reading ends early; a fault of grammar comes with the text from its place on. -/
inductive Failure where
  | grammar (cause : ReadCause) (rest : Text)
  | tooManyDigits (count : Nat)
  | tooDeep
  deriving DecidableEq, Repr

def Failure.toError (s : Text) : Failure → ReadError
  | grammar cause rest => .malformed (.of s cause rest)
  | tooManyDigits count => .tooManyDigits count
  | tooDeep => .tooDeep

/-! ## Strings -/

def isGap (c : Char) : Bool := c == ' ' || c == '\t' || c == '\n' || c == '\r'

def skipGaps (s : Text) : Text := s.dropWhile isGap

def hexValue? (c : Char) : Option Nat :=
  if '0' ≤ c ∧ c ≤ '9' then some (c.toNat - 48)
  else if 'a' ≤ c ∧ c ≤ 'f' then some (c.toNat - 87)
  else if 'A' ≤ c ∧ c ≤ 'F' then some (c.toNat - 55)
  else none

/-- The number that the first four characters write in hexadecimal. -/
def hexUnit? : Text → Option Nat
  | a :: b :: c :: d :: _ => do
    return (← hexValue? a) * 4096 + (← hexValue? b) * 256 + (← hexValue? c) * 16 + (← hexValue? d)
  | _ => none

def isHighSurrogate (n : Nat) : Bool := 0xd800 ≤ n && n < 0xdc00

def isLowSurrogate (n : Nat) : Bool := 0xdc00 ≤ n && n < 0xe000

/-- The code point of one UTF-16 unit. -/
def unitPoint (n : Nat) : CodePoint :=
  if isHighSurrogate n || isLowSurrogate n then .half (Fin.ofNat 2048 (n - 0xd800))
  else .char (Char.ofNat n)

def simpleEscape? : Char → Option Char
  | '\x22' => some '\x22'
  | '\\' => some '\\'
  | '/' => some '/'
  | 'b' => some '\x08'
  | 'f' => some '\x0c'
  | 'n' => some '\n'
  | 'r' => some '\r'
  | 't' => some '\t'
  | _ => none

/-- The code point that an escape writes behind its backslash, and the length of the escape. -/
def escape? (s : Text) : Except ReadCause (CodePoint × Nat) :=
  match s with
  | 'u' :: r =>
    if (r.drop 4).isEmpty then .error .badUnicodeEscape
    else
      match hexUnit? r with
      | none => .error .badUnicodeEscape
      | some high =>
        match isHighSurrogate high && !(r.drop 10).isEmpty, r.drop 4 with
        | true, '\\' :: 'u' :: r' =>
          match hexUnit? r' with
          | none => .ok (unitPoint high, 5)
          | some low =>
            if isLowSurrogate low then
              .ok (.char (Char.ofNat (0x10000 + (high - 0xd800) * 1024 + (low - 0xdc00))), 11)
            else .ok (unitPoint high, 5)
        | _, _ => .ok (unitPoint high, 5)
  | c :: _ =>
    match simpleEscape? c with
    | some d => .ok (.char d, 1)
    | none => .error .badEscape
  | [] => .error .unterminatedString

/-- Where the fault of an escape lies. -/
def escapeFault (opening backslash afterBackslash : Text) : ReadCause → Failure
  | .badUnicodeEscape => .grammar .badUnicodeEscape afterBackslash
  | .badEscape => .grammar .badEscape backslash
  | cause => .grammar cause opening

/-- The code points of a string behind `skip` more of its text, up to the closing quote. -/
def readString (opening : Text) (skip : Nat) (read : RawText) :
    Text → Except Failure (RawText × Text)
  | [] => .error (.grammar .unterminatedString opening)
  | c :: s =>
    match skip with
    | skip + 1 => readString opening skip read s
    | 0 =>
      if c = '\x22' then .ok (read.reverse, s)
      else if c = '\\' then
        match escape? s with
        | .ok (d, length) => readString opening length (d :: read) s
        | .error cause => .error (escapeFault opening (c :: s) s cause)
      else if c.toNat < 0x20 then .error (.grammar .controlCharacter (c :: s))
      else readString opening 0 (.char c :: read) s

/-! ## Numbers -/

def isNumeral (c : Char) : Bool := '0' ≤ c && c ≤ '9'

def natOf (digits : Text) : Nat := digits.foldl (fun n c => 10 * n + (c.toNat - 48)) 0

/-- The digits of a fraction, if a point and a digit follow. -/
def readFraction (s : Text) : Text × Text :=
  match s with
  | '.' :: c :: r =>
    if isNumeral c then ((c :: r).takeWhile isNumeral, (c :: r).dropWhile isNumeral) else ([], s)
  | _ => ([], s)

def readExponent (s : Text) : Option Int × Text :=
  match s with
  | e :: r =>
    if e = 'e' ∨ e = 'E' then
      let (negative, t) :=
        match r with
        | '-' :: t => (true, t)
        | '+' :: t => (false, t)
        | t => (false, t)
      let digits := t.takeWhile isNumeral
      if digits.isEmpty then (none, s)
      else (some (if negative then -(natOf digits : Int) else natOf digits), t.dropWhile isNumeral)
    else (none, s)
  | [] => (none, s)

/-- A number behind its sign; `start` is the text from the sign on. -/
def readMagnitude (start : Text) (negative : Bool) (s : Text) : Except Failure (Value × Text) :=
  let whole := if s.head? = some '0' then ['0'] else s.takeWhile isNumeral
  if whole.isEmpty then .error (.grammar .valueExpected start)
  else
    let (fraction, t) := readFraction (s.drop whole.length)
    let (exponent, u) := readExponent t
    if fraction.isEmpty ∧ exponent = none then
      if Text.longestNumeral < whole.length then .error (.tooManyDigits whole.length)
      else .ok (.int (if negative then -(natOf whole : Int) else natOf whole), u)
    else
      let magnitude : Number.Decimal :=
        ⟨natOf (whole ++ fraction), exponent.getD 0 - fraction.length⟩
      .ok (.real (.ofDecimal negative magnitude), u)

def readWord? (s : Text) : Option (Value × Text) :=
  let words : List (String × Value) := [
    ("null", .null), ("true", .bool true), ("false", .bool false), ("NaN", .real .notANumber),
    ("Infinity", .real (.infinite false)), ("-Infinity", .real (.infinite true))]
  (words.find? fun (w, _) => w.toList.isPrefixOf s).map fun (w, v) => (v, s.drop w.length)

def readScalar (s : Text) : Except Failure (Value × Text) :=
  match readWord? s with
  | some result => .ok result
  | none =>
    match s with
    | '-' :: r => readMagnitude s true r
    | _ => readMagnitude s false s

/-! ## Values -/

/-- How deep lists and objects may be nested. -/
def deepestNesting : Nat := 985

/-- Sets a member, in place if the key is there. -/
def putMember (key : RawText) (v : Value) : List (RawText × Value) → List (RawText × Value)
  | [] => [(key, v)]
  | (k, w) :: rest => if k = key then (k, v) :: rest else (k, w) :: putMember key v rest

mutual

/-- One value and what follows it; `fuel` bounds the number of nested readings, and `depth` the
lists and objects that may still be nested. -/
def readValue : Nat → Nat → Text → Except Failure (Value × Text)
  | 0, _, s => .error (.grammar .valueExpected s)
  | fuel + 1, depth, s =>
    match s with
    | '\x22' :: r => (readString s 0 [] r).map fun (t, rest) => (.str t, rest)
    | '[' :: r =>
      if depth = 0 then .error .tooDeep
      else
        match skipGaps r with
        | ']' :: rest => .ok (.arr [], rest)
        | t => (readItems fuel (depth - 1) t).map fun (items, rest) => (.arr items, rest)
    | '\x7b' :: r =>
      if depth = 0 then .error .tooDeep
      else
        match skipGaps r with
        | '\x7d' :: rest => .ok (.obj [], rest)
        | t => (readMembers fuel (depth - 1) [] t).map fun (members, rest) => (.obj members, rest)
    | _ => readScalar s

def readItems : Nat → Nat → Text → Except Failure (List Value × Text)
  | 0, _, s => .error (.grammar .valueExpected s)
  | fuel + 1, depth, s => do
    let (v, r) ← readValue fuel depth s
    match skipGaps r with
    | ']' :: rest => return ([v], rest)
    | ',' :: t =>
      let (items, rest) ← readItems fuel depth (skipGaps t)
      return (v :: items, rest)
    | t => .error (.grammar .commaExpected t)

def readMembers : Nat → Nat → List (RawText × Value) → Text →
    Except Failure (List (RawText × Value) × Text)
  | 0, _, _, s => .error (.grammar .nameExpected s)
  | fuel + 1, depth, members, s =>
    match s with
    | '\x22' :: r => do
      let (key, r) ← readString s 0 [] r
      match skipGaps r with
      | ':' :: t =>
        let (v, r) ← readValue fuel depth (skipGaps t)
        match skipGaps r with
        | '\x7d' :: rest => return (putMember key v members, rest)
        | ',' :: t => readMembers fuel depth (putMember key v members) (skipGaps t)
        | t => .error (.grammar .commaExpected t)
      | t => .error (.grammar .colonExpected t)
    | _ => .error (.grammar .nameExpected s)

end

def read (s : Text) : Except ReadError Value :=
  let result : Except Failure Value :=
    if s.head? = some (Char.ofNat 0xfeff) then .error (.grammar .byteOrderMark s)
    else do
      let (v, rest) ← readValue (2 * s.length + 2) deepestNesting (skipGaps s)
      match skipGaps rest with
      | [] => return v
      | t => .error (.grammar .extraData t)
  result.mapError (·.toError s)

end ProcCatalog.Value
