import ProcCatalog.Collaborator.File

/-!
# Known tables

A listing of tables is a list of names or of objects with a name, or an object that holds such
lists, by itself or in its modules. Only the last part of a name counts.
-/

namespace ProcCatalog.Collaborator

open Storage

/-- The entries of the modules of a listing, then its own. -/
def tableEntries (listing : Value) : Outcome (List Value) :=
  match listing with
  | .obj _ => do
    let modules ← elementsOf listing ["modules"]
    let nested ← moduleEntries modules
    return nested ++ (← elementsOf listing ["tables"])
  | .arr entries => .ok entries
  | _ => .ok []
where
  moduleEntries : List Value → Outcome (List Value)
    | [] => .ok []
    | .obj members :: rest => do
      let tables ← elementsOf (.obj members) ["tables"]
      return tables ++ (← moduleEntries rest)
    | _ :: rest => moduleEntries rest

/-- The bare name of an entry; an entry that names nothing has an empty one. -/
def tableName : Value → Outcome RawText
  | .str s => .ok (Sql.bareName s)
  | .obj members => bareNameOf (.obj members) ["name", "TABLE_NAME"]
  | _ => .ok []

def tableNames : List Value → Outcome (List RawText)
  | [] => .ok []
  | entry :: entries => do
    let name ← tableName entry
    let names ← tableNames entries
    return if name.isEmpty then names else name :: names

def loadKnownTables (folder : Folder) (path : Text) : Outcome (List RawText) × List Warning :=
  match readFile folder .knownTables path with
  | (.error fault, warnings) => (.error fault, warnings)
  | (.ok none, warnings) => (.ok [], absence path warnings .tablesUnavailable)
  | (.ok (some listing), warnings) =>
    ((do return distinct (← tableNames (← tableEntries listing))), warnings)

end ProcCatalog.Collaborator
