import ProcCatalog.Storage.Encoding
import ProcCatalog.Value.Reader

/-!
# Faults

Everything that can end an operation, by its cause, and how it is told.
-/

namespace ProcCatalog

inductive Fault where
  /-- Settings or rules that contradict what is asked of them. -/
  | invalid (message : Text)
  | noSuchFile (path : Text)
  /-- The script to analyze is not there. -/
  | noInput (path : Text)
  | isDirectory (path : Text)
  | notDirectory (path : Text)
  | alreadyThere (path : Text)
  | nameTooLong (path : Text)
  | nullInPath
  /-- A source was read that is not open. -/
  | notOpen
  | unknownEncoding (name : Text)
  | nullInEncoding
  | undecodable (error : Storage.DecodeError)
  /-- A text with half of a surrogate pair was to be written. -/
  | unencodable
  | malformed (fault : Value.ReadFault)
  /-- A document with a whole number of too many digits. -/
  | tooManyDigits (count : Nat)
  /-- A document whose lists and objects are nested too deep. -/
  | tooDeep
  /-- A value of a kind that the operation does not take. -/
  | wrongType
  /-- A value that lacks what is asked of it. -/
  | noSuchMember
  | tooLarge
  | outOfRange
  /-- A value that cannot stand in a table. -/
  | notPrintable
  deriving DecidableEq, Repr

namespace Fault

def ofSystem (number : Nat) (text : String) (path : Text) : Text :=
  "[Errno ".toList ++ Text.ofNat number ++ "] ".toList ++ text.toList ++ ": ".toList ++
    Text.quoted path

def message : Fault → Text
  | invalid text => text
  | noSuchFile path => ofSystem 2 "No such file or directory" path
  | noInput path => "Input file not found: ".toList ++ path
  | isDirectory path => ofSystem 21 "Is a directory" path
  | notDirectory path => ofSystem 20 "Not a directory" path
  | alreadyThere path => ofSystem 17 "File exists" path
  | nameTooLong path => ofSystem 36 "File name too long" path
  | nullInPath => "embedded null byte".toList
  | notOpen => "Source is not open".toList
  | nullInEncoding => "embedded null character".toList
  | unknownEncoding name => "unknown encoding: ".toList ++ name
  | undecodable .noByteOrderMark => "UTF-16 stream does not start with BOM".toList
  | undecodable (.undecodable fault) => fault.message
  | unencodable => "surrogates not allowed".toList
  | malformed fault => fault.message
  | tooManyDigits count =>
    "Exceeds the limit (".toList ++ Text.ofNat Text.longestNumeral ++
      " digits) for integer string conversion: value has ".toList ++ Text.ofNat count ++
      " digits; use sys.set_int_max_str_digits() to increase the limit".toList
  | tooDeep => "the document is nested too deep".toList
  | wrongType => "a value of another type was expected".toList
  | noSuchMember => "the value has no such member".toList
  | tooLarge => "integer division result too large for a float".toList
  | outOfRange => "string index out of range".toList
  | notPrintable => "a string or other renderable object is required".toList

/-- A file or a directory is not what it has to be. -/
def isSystemFault : Fault → Bool
  | noSuchFile _ | noInput _ | isDirectory _ | notDirectory _ | alreadyThere _
  | nameTooLong _ => true
  | _ => false

/-- Bytes that are no text, or a text that has no bytes. -/
def isCodecFault : Fault → Bool
  | undecodable _ | unencodable => true
  | _ => false

/-- A text or a value that cannot be used. -/
def isValueFault : Fault → Bool
  | invalid _ | undecodable _ | unencodable | malformed _ | tooManyDigits _ | nullInPath
  | nullInEncoding => true
  | _ => false

def ofReadError : Value.ReadError → Fault
  | .malformed fault => malformed fault
  | .tooManyDigits count => tooManyDigits count
  | .tooDeep => tooDeep

end Fault

abbrev Outcome (α : Type) := Except Fault α

end ProcCatalog
