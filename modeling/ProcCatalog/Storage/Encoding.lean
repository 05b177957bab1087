import ProcCatalog.Text.Quoted

/-!
# Encodings

A file is decoded in chunks. Between chunks a decoder keeps the bytes of an unfinished character;
at the end of the file nothing may be unfinished. UTF-16 without a stated byte order needs a byte
order mark, unless less than one unit is read.
-/

namespace ProcCatalog.Storage

abbrev Bytes := List UInt8

inductive Encoding where
  | utf8
  | utf8WithMark
  | utf16
  | utf16Little
  | utf16Big
  | latin1
  | ascii
  deriving DecidableEq, Repr

def Encoding.ofName? (name : Text) : Option Encoding :=
  [("utf-8", utf8), ("UTF8", utf8), ("utf-8-sig", utf8WithMark), ("utf-16", utf16),
    ("utf-16-le", utf16Little), ("utf-16-be", utf16Big), ("latin-1", latin1),
    ("ascii", ascii)].lookup (String.ofList name)

/-- The null character, which no name of an encoding or a file may hold. -/
def holdsNull (name : Text) : Bool := name.contains (Char.ofNat 0)

/-! ## Faults -/

/-- The bytes from `start` up to `stop` of a chunk are no characters of a codec; `first` is the
first of them. -/
structure DecodeFault where
  codec : String
  first : UInt8
  start : Nat
  stop : Nat
  reason : String
  deriving DecidableEq, Repr

def DecodeFault.message (f : DecodeFault) : Text :=
  let place :=
    if f.stop = f.start + 1 then
      "byte 0x".toList ++ Text.hexOf 2 f.first.toNat ++ " in position ".toList ++
        Text.ofNat f.start
    else
      "bytes in position ".toList ++ Text.ofNat f.start ++ '-' :: Text.ofNat (f.stop - 1)
  Text.quoted f.codec.toList ++ " codec can't decode ".toList ++ place ++ ": ".toList ++
    f.reason.toList

/-! ## Single characters -/

/-- What stands at the front of a row of bytes. -/
inductive Front where
  | char (c : Char) (length : Nat)
  | unfinished (reason : String)
  | bad (reason : String) (length : Nat)
  deriving DecidableEq, Repr

def isContinuation (b : UInt8) : Bool := 0x80 ≤ b && b < 0xc0

def lowBits (b : UInt8) : Nat := b.toNat % 64

def badStart : Front := .bad "invalid start byte" 1

def badContinuation (length : Nat) : Front := .bad "invalid continuation byte" length

def unfinishedUtf8 : Front := .unfinished "unexpected end of data"

/-- The second byte may not make the form too long, a surrogate or too large. -/
def secondFits (b c : UInt8) : Bool :=
  isContinuation c && !(b == 0xe0 && c < 0xa0) && !(b == 0xed && 0xa0 ≤ c) &&
    !(b == 0xf0 && c < 0x90) && !(b == 0xf4 && 0x90 ≤ c)

def utf8Front : Bytes → Front
  | [] => unfinishedUtf8
  | b :: s =>
    if b < 0x80 then .char (Char.ofNat b.toNat) 1
    else if b < 0xc2 then badStart
    else if b < 0xe0 then
      match s with
      | [] => unfinishedUtf8
      | c :: _ =>
        if isContinuation c then .char (Char.ofNat (b.toNat % 32 * 64 + lowBits c)) 2
        else badContinuation 1
    else if b < 0xf0 then
      match s with
      | [] => unfinishedUtf8
      | [c] => if secondFits b c then unfinishedUtf8 else badContinuation 1
      | c :: d :: _ =>
        if !secondFits b c then badContinuation 1
        else if !isContinuation d then badContinuation 2
        else .char (Char.ofNat (b.toNat % 16 * 4096 + lowBits c * 64 + lowBits d)) 3
    else if b < 0xf5 then
      match s with
      | [] => unfinishedUtf8
      | [c] => if secondFits b c then unfinishedUtf8 else badContinuation 1
      | [c, d] =>
        if !secondFits b c then badContinuation 1
        else if !isContinuation d then badContinuation 2
        else unfinishedUtf8
      | c :: d :: e :: _ =>
        if !secondFits b c then badContinuation 1
        else if !isContinuation d then badContinuation 2
        else if !isContinuation e then badContinuation 3
        else
          .char
            (Char.ofNat (b.toNat % 8 * 262144 + lowBits c * 4096 + lowBits d * 64 + lowBits e)) 4
    else badStart

/-- The number of two bytes, in the byte order that is set. -/
def unitOf (big : Bool) (a b : UInt8) : Nat :=
  if big then a.toNat * 256 + b.toNat else b.toNat * 256 + a.toNat

def utf16Front (big : Bool) : Bytes → Front
  | a :: b :: s =>
    let high := unitOf big a b
    if 0xd800 ≤ high ∧ high < 0xdc00 then
      match s with
      | c :: d :: _ =>
        let low := unitOf big c d
        if 0xdc00 ≤ low ∧ low < 0xe000 then
          .char (Char.ofNat (0x10000 + (high - 0xd800) * 1024 + (low - 0xdc00))) 4
        else .bad "illegal UTF-16 surrogate" 2
      | _ => .unfinished "unexpected end of data"
    else if 0xdc00 ≤ high ∧ high < 0xe000 then .bad "illegal encoding" 2
    else .char (Char.ofNat high) 2
  | _ => .unfinished "truncated data"

def latin1Front : Bytes → Front
  | [] => .unfinished ""
  | b :: _ => .char (Char.ofNat b.toNat) 1

def asciiFront : Bytes → Front
  | [] => .unfinished ""
  | b :: _ =>
    if b < 0x80 then .char (Char.ofNat b.toNat) 1 else .bad "ordinal not in range(128)" 1

/-! ## Rows of bytes -/

/-- The characters of a row of bytes and the bytes left over behind the first `skip` ones;
nothing is left over at the end of a file. -/
def decodeFrom (codec : String) (front : Bytes → Front) (atEnd : Bool) (skip position : Nat)
    (read : Text) : Bytes → Except DecodeFault (Text × Bytes)
  | [] => .ok (read.reverse, [])
  | b :: s =>
    match skip with
    | skip + 1 => decodeFrom codec front atEnd skip (position + 1) read s
    | 0 =>
      match front (b :: s) with
      | .char c length => decodeFrom codec front atEnd (length - 1) (position + 1) (c :: read) s
      | .bad reason length => .error ⟨codec, b, position, position + length, reason⟩
      | .unfinished reason =>
        if atEnd then .error ⟨codec, b, position, position + s.length + 1, reason⟩
        else .ok (read.reverse, b :: s)

def decodeUtf8 (atEnd : Bool) (bytes : Bytes) : Except DecodeFault (Text × Bytes) :=
  decodeFrom "utf-8" utf8Front atEnd 0 0 [] bytes

def decodeUtf16 (big atEnd : Bool) (bytes : Bytes) : Except DecodeFault (Text × Bytes) :=
  decodeFrom (if big then "utf-16-be" else "utf-16-le") (utf16Front big) atEnd 0 0 [] bytes

/-! ## Decoders -/

/-- What a decoder has to know beside its encoding: the byte order once it is found, whether a
mark may still come, and the bytes of an unfinished character. -/
structure Decoder where
  encoding : Encoding
  bigOrder : Option Bool := none
  atStart : Bool := true
  pending : Bytes := []
  deriving DecidableEq, Repr

inductive DecodeError where
  | undecodable (fault : DecodeFault)
  | noByteOrderMark
  deriving DecidableEq, Repr

namespace Decoder

abbrev Step := Except DecodeError Text × Decoder

/-- Takes what was decoded; on a fault the decoder stays as it is. -/
def settle (d : Decoder) : Except DecodeFault (Text × Bytes) → Step
  | .ok (s, left) => (.ok s, { d with pending := left })
  | .error fault => (.error (.undecodable fault), d)

def markUtf8 : Bytes := [0xef, 0xbb, 0xbf]

def feedUtf8WithMark (d : Decoder) (atEnd : Bool) (bytes : Bytes) : Step :=
  if d.atStart then
    if bytes.length < 3 then
      if bytes.isPrefixOf markUtf8 then (.ok [], { d with pending := bytes })
      else { d with atStart := false }.settle (decodeUtf8 atEnd bytes)
    else
      { d with atStart := false }.settle
        (decodeUtf8 atEnd (if markUtf8.isPrefixOf bytes then bytes.drop 3 else bytes))
  else d.settle (decodeUtf8 atEnd bytes)

def feedUtf16 (d : Decoder) (atEnd : Bool) (bytes : Bytes) : Step :=
  match d.bigOrder with
  | some big => d.settle (decodeUtf16 big atEnd bytes)
  | none =>
    match bytes with
    | 0xff :: 0xfe :: s =>
      settleOrder false (decodeFrom "utf-16-le" (utf16Front false) atEnd 0 2 [] s)
    | 0xfe :: 0xff :: s =>
      settleOrder true (decodeFrom "utf-16-be" (utf16Front true) atEnd 0 2 [] s)
    | _ =>
      match decodeUtf16 false atEnd bytes with
      | .error fault => (.error (.undecodable fault), d)
      | .ok (s, left) =>
        if left.length + 2 ≤ bytes.length then (.error .noByteOrderMark, d)
        else (.ok s, { d with pending := left })
where
  settleOrder (big : Bool) : Except DecodeFault (Text × Bytes) → Step
    | .ok (s, left) => (.ok s, { d with bigOrder := some big, pending := left })
    | .error fault => (.error (.undecodable fault), d)

/-- Decodes the next chunk, or what is unfinished at the end of the file. -/
def feed (d : Decoder) (atEnd : Bool) (chunk : Bytes) : Step :=
  let bytes := d.pending ++ chunk
  match d.encoding with
  | .utf8 => d.settle (decodeUtf8 atEnd bytes)
  | .utf8WithMark => d.feedUtf8WithMark atEnd bytes
  | .utf16 => d.feedUtf16 atEnd bytes
  | .utf16Little => d.settle (decodeUtf16 false atEnd bytes)
  | .utf16Big => d.settle (decodeUtf16 true atEnd bytes)
  | .latin1 => d.settle (decodeFrom "latin-1" latin1Front atEnd 0 0 [] bytes)
  | .ascii => d.settle (decodeFrom "ascii" asciiFront atEnd 0 0 [] bytes)

end Decoder

/-! ## Encoding -/

def encodeChar (c : Char) : Bytes :=
  let n := c.toNat
  if n < 0x80 then [n.toUInt8]
  else if n < 0x800 then [(0xc0 + n / 64).toUInt8, (0x80 + n % 64).toUInt8]
  else if n < 0x10000 then
    [(0xe0 + n / 4096).toUInt8, (0x80 + n / 64 % 64).toUInt8, (0x80 + n % 64).toUInt8]
  else
    [(0xf0 + n / 262144).toUInt8, (0x80 + n / 4096 % 64).toUInt8, (0x80 + n / 64 % 64).toUInt8,
      (0x80 + n % 64).toUInt8]

def encodeUtf8 (s : Text) : Bytes := s.flatMap encodeChar

/-- The bytes of the chunks before the first that holds half of a surrogate pair, and whether there
is none. -/
def encodeChunks (chunks : List RawText) : Bytes × Bool :=
  let whole := (chunks.takeWhile RawText.isWhole).filterMap RawText.text?
  (whole.flatMap encodeUtf8, chunks.all RawText.isWhole)

end ProcCatalog.Storage
