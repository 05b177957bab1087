import ProcCatalog.Text.Basic
import ProcCatalog.Text.Word
import ProcCatalog.Text.LowerTable
import ProcCatalog.Text.CaseContextTable

/-!
# Small letters

`lower` writes a text in small letters. The capital I with dot becomes two characters, and a
capital sigma takes the form for the end of a word when a letter with case stands before it and
none after it, characters that case rules skip left aside.
-/

namespace ProcCatalog.Text

def smallLetter (c : Char) : Char :=
  if c.toNat < 128 then
    if isAsciiUpper c then Char.ofNat (c.toNat + 32) else c
  else
    match capitalRows.find? fun row =>
        row.first ≤ c.toNat && c.toNat ≤ row.last && (c.toNat - row.first) % row.stride == 0 with
    | some row => Char.ofNat (Int.toNat (c.toNat + row.shift))
    | none => c

/-- The nearest character that counts is a letter with case. -/
def nextIsCased (s : Text) : Bool :=
  match s.dropWhile fun c => inRanges skippedRanges c.toNat with
  | [] => false
  | c :: _ => inRanges casedRanges c.toNat

def lowerFrom (before : Text) : Text → Text
  | [] => []
  | c :: s =>
    let small :=
      if c.toNat = 0x130 then ['i', Char.ofNat 0x307]
      else if c.toNat = 0x3a3 then
        [if nextIsCased before && !nextIsCased s then Char.ofNat 0x3c2 else Char.ofNat 0x3c3]
      else [smallLetter c]
    small ++ lowerFrom (c :: before) s

def lower (s : Text) : Text := lowerFrom [] s

end ProcCatalog.Text
