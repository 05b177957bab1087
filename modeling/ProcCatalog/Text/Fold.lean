import ProcCatalog.Text.Word

/-!
# Letters in either case

Keywords are compared without regard to case. Beside the ASCII letters, the long s counts as an
s, the Kelvin sign as a k, and the dotless and the dotted I as an i.
-/

namespace ProcCatalog.Text

def foldCase (c : Char) : Char :=
  if isAsciiUpper c then Char.ofNat (c.toNat + 32)
  else if c.toNat = 0x17f then 's'
  else if c.toNat = 0x212a then 'k'
  else if c.toNat = 0x130 || c.toNat = 0x131 then 'i'
  else c

def sameLetter (c d : Char) : Bool := foldCase c == foldCase d

/-- An ASCII letter, or one that counts as such. -/
def isPlainLetter (c : Char) : Bool := isAsciiLower (foldCase c)

end ProcCatalog.Text
