import ProcCatalog.Text.Quoted
import ProcCatalog.Value.Basic

/-!
# Values as plain text

How a value reads inside a sentence: a text stands for itself, but is quoted inside a list or an
object.
-/

namespace ProcCatalog

def RealNumber.display : RealNumber → Text
  | .infinite negative => if negative then "-inf".toList else "inf".toList
  | .notANumber => "nan".toList
  | x => x.write

namespace Value

mutual

def displayQuoted : Value → Text
  | null => "None".toList
  | bool b => if b then "True".toList else "False".toList
  | int n => Text.ofInt n
  | real x => x.display
  | str s => Text.quoted s
  | arr [] => "[]".toList
  | arr (v :: vs) => '[' :: (displayQuoted v ++ displayItems vs ++ [']'])
  | obj [] => ['\x7b', '\x7d']
  | obj ((k, v) :: ms) =>
    '\x7b' :: (Text.quoted k ++ [':', ' '] ++ displayQuoted v ++ displayMembers ms ++ ['\x7d'])

def displayItems : List Value → Text
  | [] => []
  | v :: vs => ',' :: ' ' :: (displayQuoted v ++ displayItems vs)

def displayMembers : List (RawText × Value) → Text
  | [] => []
  | (k, v) :: ms =>
    ',' :: ' ' :: (Text.quoted k ++ [':', ' '] ++ displayQuoted v ++ displayMembers ms)

end

def display : Value → RawText
  | str s => s
  | v => v.displayQuoted

end Value

end ProcCatalog
