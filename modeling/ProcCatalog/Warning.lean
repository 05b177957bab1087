import ProcCatalog.Text.Basic

/-!
# Warnings

What goes wrong without ending an operation.
-/

namespace ProcCatalog

/-- The two kinds of files that another tool provides. -/
inductive CollaboratorFile where
  | knownTables
  | crossReference
  deriving DecidableEq, Repr

def CollaboratorFile.label : CollaboratorFile → String
  | knownTables => "Known-tables"
  | crossReference => "Cross-reference"

inductive Warning where
  | missing (file : CollaboratorFile) (path : Text)
  | unreadable (file : CollaboratorFile) (path : Text)
  | tablesUnavailable
  | callersUnavailable
  | blockSkipped (line : Int)
  deriving DecidableEq, Repr

def Warning.message : Warning → Text
  | missing file path => file.label.toList ++ " file not found: ".toList ++ path
  | unreadable file path =>
    "Could not read ".toList ++ file.label.toList ++ " file ".toList ++ path
  | tablesUnavailable =>
    "Table validation disabled: unqualified table references will be ignored".toList
  | callersUnavailable => "Cross-reference unavailable: calledFromCode will be empty".toList
  | blockSkipped line =>
    "Failed to analyze procedure block at line ".toList ++ Text.ofInt line ++ ", skipping".toList

end ProcCatalog
