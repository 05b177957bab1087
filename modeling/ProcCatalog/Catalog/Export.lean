import ProcCatalog.Catalog.Document
import ProcCatalog.Storage.Folder
import ProcCatalog.Text.Word
import ProcCatalog.Value.Writer

/-!
# Exporting a catalog

The catalog document is written first, then one document of bodies for each module, in a directory
of their own. What was written before a fault stays.
-/

namespace ProcCatalog.Catalog

open Storage

def catalogName : Text := "stored-procedures-full.json".toList

def bodiesName : Text := "sp-bodies".toList

/-! ## File names of modules -/

def isSlugChar (c : Char) : Bool :=
  Text.isAsciiLetter c || Text.isAsciiDigit c || c == '_' || c == '-'

/-- One underscore for each run of other characters. -/
def underscored : Bool → RawText → Text
  | _, [] => []
  | inRun, c :: s =>
    match c.char?.filter isSlugChar with
    | some c => c :: underscored false s
    | none => if inRun then underscored true s else '_' :: underscored true s

/-- The file name of a module without its ending. -/
def slug (code : RawText) : Text :=
  let s := Text.trimWith (· == '_') (underscored false code)
  if s.isEmpty then "uncategorized".toList else s

def slugOf : Value → Outcome Text
  | .str s => .ok (slug s)
  | _ => .error .wrongType

/-! ## Writing -/

def writeBodies (directory : Text) (folder : Folder) (written : List Text) :
    List Listing → Folder × Outcome (List Text)
  | [] => (folder, .ok written.reverse)
  | l :: ls =>
    match slugOf l.code with
    | .error fault => (folder, .error fault)
    | .ok name =>
      let path := joinPath directory (name ++ ".json".toList)
      match folder.writeChunks path l.bodies.chunks with
      | (folder, .error fault) => (folder, .error fault)
      | (folder, .ok ()) => writeBodies directory folder (path :: written) ls

/-- The folder after the export, and the paths of the files in the order of writing. -/
def exportTo (c : Catalog) (directory : Text) (folder : Folder) : Folder × Outcome (List Text) :=
  let bodies := joinPath directory bodiesName
  match folder.makeDirectories bodies with
  | (folder, .error fault) => (folder, .error fault)
  | (folder, .ok ()) =>
    let path := joinPath directory catalogName
    match folder.writeChunks path c.document.chunks with
    | (folder, .error fault) => (folder, .error fault)
    | (folder, .ok ()) => writeBodies bodies folder [path] c.listings

end ProcCatalog.Catalog
