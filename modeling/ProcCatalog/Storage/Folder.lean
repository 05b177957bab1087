import ProcCatalog.Fault
import ProcCatalog.Text.Line

/-!
# Folders

A folder holds files and directories under paths relative to it. A path is walked from the folder
on; two dots lead back to the holder, and one dot or nothing stays. A path that begins with a
slash is walked from the root, which is written as one empty name; the holders of the folder are
written with two dots. Neither a path nor a name in it may be too long, and a path may not hold the
null character.
-/

namespace ProcCatalog.Storage

abbrev Path := List Text

structure Folder where
  files : List (Path × Bytes) := []
  directories : List Path := []
  deriving DecidableEq, Repr

inductive Entry where
  | file (bytes : Bytes)
  | directory
  | missing
  deriving DecidableEq, Repr

namespace Folder

/-- The folder, one of its holders, or the root. -/
def isTop (path : Path) : Bool := path == [[]] || path.all (· == ['.', '.'])

/-- The place that holds another one. -/
def holder (path : Path) : Path :=
  if path = [[]] then path else if isTop path then path ++ [['.', '.']] else path.dropLast

def entry (folder : Folder) (path : Path) : Entry :=
  if isTop path || folder.directories.contains path then .directory
  else
    match folder.files.lookup path with
    | some bytes => .file bytes
    | none => .missing

/-! ## Walking -/

/-- Why a path leads nowhere. -/
inductive Obstacle where
  | missing
  | notDirectory
  | tooLong
  | nullCharacter
  deriving DecidableEq, Repr

def Obstacle.fault (path : Text) : Obstacle → Fault
  | missing => .noSuchFile path
  | notDirectory => .notDirectory path
  | tooLong => .nameTooLong path
  | nullCharacter => .nullInPath

/-- The number of bytes up to which a name is taken. -/
def longestName : Nat := 255

/-- The number of bytes up to which a path is taken. -/
def longestPath : Nat := 4095

/-- The path that is reached from `place` by some steps, all but the last through directories. -/
def walk (folder : Folder) (place : Path) : List Text → Except Obstacle Path
  | [] => .ok place
  | part :: parts =>
    match folder.entry place with
    | .missing => .error .missing
    | .file _ => .error .notDirectory
    | .directory =>
      if part = [] ∨ part = ['.'] then folder.walk place parts
      else if part = ['.', '.'] then folder.walk (holder place) parts
      else if longestName < (encodeUtf8 part).length then .error .tooLong
      else folder.walk (place ++ [part]) parts

def origin (path : Text) : Path := if path.head? = some '/' then [[]] else []

def follow (folder : Folder) (path : Text) (parts : List Text) : Except Obstacle Path :=
  if holdsNull path then .error .nullCharacter
  else if path.isEmpty then .error .missing
  else if longestPath < (encodeUtf8 path).length then .error .tooLong
  else folder.walk (origin path) parts

def resolve (folder : Folder) (path : Text) : Except Obstacle Path :=
  folder.follow path (Text.partsAt '/' path)

/-- What stands at a path; where a path leads nowhere, nothing does. -/
def entryAt (folder : Folder) (path : Text) : Entry :=
  match folder.resolve path with
  | .ok place => folder.entry place
  | .error _ => .missing

def isFile (folder : Folder) (path : Text) : Bool :=
  match folder.entryAt path with
  | .file _ => true
  | _ => false

def isDirectory (folder : Folder) (path : Text) : Bool := folder.entryAt path == .directory

def isThere (folder : Folder) (path : Text) : Bool := folder.entryAt path != .missing

/-! ## Reading -/

def readBytes (folder : Folder) (path : Text) : Outcome Bytes :=
  match folder.resolve path with
  | .error obstacle => .error (obstacle.fault path)
  | .ok place =>
    match folder.entry place with
    | .file bytes => .ok bytes
    | .directory => .error (.isDirectory path)
    | .missing => .error (.noSuchFile path)

/-- The text of a UTF-8 file, with line feeds for line breaks. -/
def readText (folder : Folder) (path : Text) : Outcome Text := do
  let bytes ← folder.readBytes path
  match decodeUtf8 true bytes with
  | .ok (s, _) => return Text.unifyBreaks s
  | .error fault => throw (.undecodable (.undecodable fault))

def readValue (folder : Folder) (path : Text) : Outcome Value := do
  let s ← folder.readText path
  (Value.read s).mapError Fault.ofReadError

/-! ## Changing -/

def putFile (path : Path) (bytes : Bytes) : List (Path × Bytes) → List (Path × Bytes)
  | [] => [(path, bytes)]
  | (p, b) :: rest => if p = path then (path, bytes) :: rest else (p, b) :: putFile path bytes rest

def writeBytes (folder : Folder) (path : Text) (bytes : Bytes) : Outcome Folder :=
  match folder.resolve path with
  | .error obstacle => .error (obstacle.fault path)
  | .ok place =>
    match folder.entry place, folder.entry (holder place) with
    | .directory, _ => .error (.isDirectory path)
    | .file _, _ => .ok { folder with files := putFile place bytes folder.files }
    | .missing, .directory => .ok { folder with files := putFile place bytes folder.files }
    | .missing, .file _ => .error (.notDirectory path)
    | .missing, .missing => .error (.noSuchFile path)

/-- Writes a file chunk by chunk; a chunk that cannot be encoded ends the writing. -/
def writeChunks (folder : Folder) (path : Text) (chunks : List RawText) : Folder × Outcome Unit :=
  let (bytes, complete) := encodeChunks chunks
  match folder.writeBytes path bytes with
  | .ok folder => (folder, if complete then .ok () else .error .unencodable)
  | .error fault => (folder, .error fault)

def remove (folder : Folder) (path : Text) : Outcome Folder :=
  match folder.resolve path with
  | .error obstacle => .error (obstacle.fault path)
  | .ok place =>
    match folder.entry place with
    | .file _ => .ok { folder with files := folder.files.filter (·.1 != place) }
    | .directory => .error (.isDirectory path)
    | .missing => .error (.noSuchFile path)

/-! ## Making directories -/

/-- A path without the slashes at its end; one of slashes only stays as it is. -/
def withoutEndSlashes (path : Text) : Text :=
  let rest := Text.trimEndWith (· == '/') path
  if rest.isEmpty then path else rest

/-- A path up to its last slash, and what follows that. -/
def splitPath (path : Text) : Text × Text :=
  let tail := Text.afterLast '/' path
  (withoutEndSlashes (path.take (path.length - tail.length)), tail)

/-- The directory that holds a path, and the last name in it, slashes at the end left aside. -/
def splitLast (path : Text) : Text × Text :=
  let (head, tail) := splitPath path
  if tail.isEmpty then splitPath head else (head, tail)

/-- Makes one directory in a directory that is there. -/
def makeDirectory (folder : Folder) (path : Text) : Outcome Folder :=
  let parts := Text.partsAt '/' (withoutEndSlashes path)
  let name := parts.getLastD []
  match folder.follow path parts.dropLast with
  | .error obstacle => .error (obstacle.fault path)
  | .ok parent =>
    match folder.entry parent, name with
    | .missing, _ => .error (.noSuchFile path)
    | .file _, _ => .error (.notDirectory path)
    | .directory, [] | .directory, ['.'] | .directory, ['.', '.'] => .error (.alreadyThere path)
    | .directory, name =>
      let place := parent ++ [name]
      if longestName < (encodeUtf8 name).length then .error (.nameTooLong path)
      else if folder.entry place != .missing then .error (.alreadyThere path)
      else .ok { folder with directories := folder.directories ++ [place] }

def ensureDirectory (folder : Folder) (path : Text) : Folder × Outcome Unit :=
  match folder.makeDirectory path with
  | .ok folder => (folder, .ok ())
  | .error .nullInPath => (folder, .error .nullInPath)
  | .error fault => (folder, if folder.isDirectory path then .ok () else .error fault)

/-- Makes a directory and those that hold it, the outermost first, at most `rounds` of them. Where
a file stands in the way of a holder, that is told only of what was to stand in it. -/
def makeAll (folder : Folder) (path : Text) : Nat → Folder × Outcome Unit
  | 0 => (folder, .ok ())
  | rounds + 1 =>
    let (head, tail) := splitLast path
    if head.isEmpty || tail.isEmpty || folder.isThere head then folder.ensureDirectory path
    else
      match folder.makeAll head rounds with
      | (folder, .ok ()) | (folder, .error (.alreadyThere _)) =>
        if tail = ['.'] then (folder, .ok ()) else folder.ensureDirectory path
      | failed => failed

def makeDirectories (folder : Folder) (path : Text) : Folder × Outcome Unit :=
  folder.makeAll path (path.length + 1)

/-- Writes a file, after making the directories that hold it. -/
def place (folder : Folder) (path : Text) (bytes : Bytes) : Folder × Outcome Unit :=
  let head := (splitPath path).1
  let (folder, made) := if head.isEmpty then (folder, .ok ()) else folder.makeDirectories head
  match made with
  | .error fault => (folder, .error fault)
  | .ok () =>
    match folder.writeBytes path bytes with
    | .ok folder => (folder, .ok ())
    | .error fault => (folder, .error fault)

/-! ## Comparing -/

/-- The files of a folder that are new or have another content than before. -/
def changesSince (folder earlier : Folder) : List (Path × Bytes) :=
  folder.files.filter fun (path, bytes) => earlier.files.lookup path != some bytes

end Folder

/-- A path below a directory; nothing is put before it when the directory is not named. -/
def joinPath (directory name : Text) : Text :=
  if directory.isEmpty ∨ directory.getLast? = some '/' then directory ++ name
  else directory ++ '/' :: name

/-- What follows the last slash. -/
def baseName (path : Text) : Text := Text.afterLast '/' path

end ProcCatalog.Storage
