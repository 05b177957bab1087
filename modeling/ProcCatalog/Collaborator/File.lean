import ProcCatalog.Sql.ObjectName
import ProcCatalog.Storage.Folder
import ProcCatalog.Value.Mapping
import ProcCatalog.Warning

/-!
# Collaborator files

Both collaborator files may be missing or malformed; a warning tells it, and the file counts as
absent. A path that is not given is no cause for a warning.
-/

namespace ProcCatalog.Collaborator

open Storage

/-- The value of a file that is there and can be read. Only a document that is nested too deep is
a fault. -/
def readFile (folder : Folder) (file : CollaboratorFile) (path : Text) :
    Outcome (Option Value) × List Warning :=
  if path.isEmpty then (.ok none, [])
  else if folder.isFile path then
    match folder.readValue path with
    | .ok .null => (.ok none, [])
    | .ok v => (.ok (some v), [])
    | .error fault =>
      if fault.isSystemFault || fault.isValueFault then (.ok none, [.unreadable file path])
      else (.error fault, [])
  else (.ok none, [.missing file path])

/-- The warnings of a file that cannot be used, and what its absence means. -/
def absence (path : Text) (warnings : List Warning) (consequence : Warning) : List Warning :=
  if path.isEmpty then warnings else warnings ++ [consequence]

/-- The first of some members that is neither null, false, zero nor empty. -/
def firstMember? (v : Value) (keys : List String) : Option Value :=
  keys.findSome? fun key => (v.member? key.toList).filter Value.isTruthy

/-- The elements of such a member; without one there are none. -/
def elementsOf (v : Value) (keys : List String) : Outcome (List Value) :=
  (firstMember? v keys).elim (.ok []) Value.elements

/-- The bare name that a member gives; without one it is empty. -/
def bareNameOf (v : Value) (keys : List String) : Outcome RawText :=
  match firstMember? v keys with
  | none => .ok []
  | some (.str s) => .ok (Sql.bareName s)
  | some _ => .error .noSuchMember

end ProcCatalog.Collaborator
