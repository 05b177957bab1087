import ProcCatalog.Value.Basic

/-!
# Writing JSON

Members and items stand on lines of their own, two spaces deeper than what holds them; an empty
list or object stays on one line. Of the characters in strings, only the quote, the backslash and
the control characters below the space are escaped. A document is written in chunks, which matters
where one of them cannot be encoded. An item that is neither a list nor an object is one chunk with
what parts it from the item before; of a member, the name and the value are chunks of their own.
-/

namespace ProcCatalog.Value

def hexDigit (n : Nat) : Char := Nat.digitChar n

def writeChar (c : Char) : Text :=
  if c = '\x22' then ['\\', '\x22']
  else if c = '\\' then ['\\', '\\']
  else if c = '\n' then ['\\', 'n']
  else if c = '\r' then ['\\', 'r']
  else if c = '\t' then ['\\', 't']
  else if c = '\x08' then ['\\', 'b']
  else if c = '\x0c' then ['\\', 'f']
  else if c.toNat < 0x20 then
    ['\\', 'u', '0', '0', hexDigit (c.toNat / 16), hexDigit (c.toNat % 16)]
  else [c]

def writePoint : CodePoint → RawText
  | .char c => writeChar c
  | half => [half]

def quote : CodePoint := .char '\x22'

def writeString (s : RawText) : RawText := quote :: (s.flatMap writePoint ++ [quote])

def newLine (depth : Nat) : Text := '\n' :: List.replicate (2 * depth) ' '

/-- The chunks of an item behind what parts it from the text before. -/
def withGap (gap : Text) (item : Value) (chunks : List RawText) : List RawText :=
  match item with
  | arr _ | obj _ => Text.raw gap :: chunks
  | _ => [Text.raw gap ++ chunks.flatten]

theorem flatten_withGap (gap : Text) (item : Value) (chunks : List RawText) :
    (withGap gap item chunks).flatten = Text.raw gap ++ chunks.flatten := by
  cases item <;> simp [withGap]

mutual

def chunksAt (depth : Nat) : Value → List RawText
  | null => ["null".toList]
  | bool b => [if b then "true".toList else "false".toList]
  | int n => [Text.ofInt n]
  | real x => [x.write]
  | str s => [writeString s]
  | arr [] => ["[]".toList]
  | arr (v :: vs) =>
    withGap ('[' :: newLine (depth + 1)) v (chunksAt (depth + 1) v) ++ itemChunks (depth + 1) vs ++
      [Text.raw (newLine depth), Text.raw [']']]
  | obj [] => [Text.raw ['\x7b', '\x7d']]
  | obj ((k, v) :: ms) =>
    [Text.raw ['\x7b'], Text.raw (newLine (depth + 1)), writeString k, Text.raw [':', ' ']] ++
      chunksAt (depth + 1) v ++ memberChunks (depth + 1) ms ++
      [Text.raw (newLine depth), Text.raw ['\x7d']]

/-- The items behind the first. -/
def itemChunks (depth : Nat) : List Value → List RawText
  | [] => []
  | v :: vs => withGap (',' :: newLine depth) v (chunksAt depth v) ++ itemChunks depth vs

/-- The members behind the first. -/
def memberChunks (depth : Nat) : List (RawText × Value) → List RawText
  | [] => []
  | (k, v) :: ms =>
    [Text.raw (',' :: newLine depth), writeString k, Text.raw [':', ' ']] ++ chunksAt depth v ++
      memberChunks depth ms

end

def chunks (v : Value) : List RawText := chunksAt 0 v

def write (v : Value) : RawText := v.chunks.flatten

end ProcCatalog.Value
