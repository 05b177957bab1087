import ProcCatalog.Text.WordTable

/-!
# Word characters

A word is made of letters, numerals and underscores of any script.
-/

namespace ProcCatalog.Text

def inRanges (ranges : List (Nat × Nat)) (n : Nat) : Bool :=
  ranges.any fun range => range.1 ≤ n && n ≤ range.2

def isAsciiUpper (c : Char) : Bool := 65 ≤ c.toNat && c.toNat ≤ 90

def isAsciiLower (c : Char) : Bool := 97 ≤ c.toNat && c.toNat ≤ 122

def isAsciiLetter (c : Char) : Bool := isAsciiUpper c || isAsciiLower c

def isAsciiDigit (c : Char) : Bool := 48 ≤ c.toNat && c.toNat ≤ 57

def isWord (c : Char) : Bool :=
  if c.toNat < 128 then isAsciiLetter c || isAsciiDigit c || c == '_'
  else inRanges wordRanges c.toNat

end ProcCatalog.Text
