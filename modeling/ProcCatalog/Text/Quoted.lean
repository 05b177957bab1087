import ProcCatalog.Text.CodePoint
import ProcCatalog.Text.UnprintableTable

/-!
# Quoted texts

A quoted text stands in single quotes, or in double quotes when it holds a single quote and no
double quote. The quote, the backslash and what has no visible form are escaped, so that what is
quoted is always a text.
-/

namespace ProcCatalog.Text

def isPrintable (c : Char) : Bool :=
  if c.toNat < 128 then 32 ≤ c.toNat && c.toNat < 127
  else !inRanges unprintableRanges c.toNat

/-- A number in hexadecimal, with zeros in front up to a width. -/
def hexOf (width n : Nat) : Text :=
  let digits := Nat.toDigits 16 n
  List.replicate (width - digits.length) '0' ++ digits

def quotedChar (mark c : Char) : Text :=
  if c = mark ∨ c = '\\' then ['\\', c]
  else if c = '\n' then ['\\', 'n']
  else if c = '\r' then ['\\', 'r']
  else if c = '\t' then ['\\', 't']
  else if isPrintable c then [c]
  else if c.toNat < 0x100 then '\\' :: 'x' :: hexOf 2 c.toNat
  else if c.toNat < 0x10000 then '\\' :: 'u' :: hexOf 4 c.toNat
  else '\\' :: 'U' :: hexOf 8 c.toNat

def quotedPoint (mark : Char) : CodePoint → Text
  | .char c => quotedChar mark c
  | .half place => '\\' :: 'u' :: hexOf 4 (CodePoint.half place).toNat

def quoted (s : RawText) : Text :=
  let mark : Char :=
    if s.contains (.char '\x27') && !s.contains (.char '\x22') then '\x22' else '\x27'
  mark :: (s.flatMap (quotedPoint mark) ++ [mark])

end ProcCatalog.Text
