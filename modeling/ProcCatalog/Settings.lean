import ProcCatalog.Storage.Folder

/-!
# Settings

Where the script and the collaborator files are, and how the analysis is to be done. What is wrong
with settings is told all at once.
-/

namespace ProcCatalog

open Storage

structure InputSettings where
  inputPath : Text := []
  encoding : Text := "utf-16".toList
  tablesPath : Text := []
  crossReferencePath : Text := []
  exportDate : Text := []
  deriving DecidableEq, Repr

def InputSettings.problems (s : InputSettings) (folder : Folder) : Outcome (List Text) :=
  if holdsNull s.encoding then .error .nullInEncoding
  else .ok (pathProblems ++ encodingProblems)
where
  pathProblems : List Text :=
    if s.inputPath.isEmpty then ["Input file is required".toList]
    else if folder.isFile s.inputPath then []
    else [(Fault.noInput s.inputPath).message]
  encodingProblems : List Text :=
    if (Encoding.ofName? s.encoding).isSome then []
    else ["Unknown encoding: ".toList ++ s.encoding]

structure AnalysisSettings where
  previewLines : Int := 20
  workers : Int := 1
  chunkSize : Int := 0
  hotspotLimit : Int := 10
  deriving DecidableEq, Repr

/-- The problem of a number that is too small. -/
def tooSmall (name : String) (least n : Int) : List Text :=
  if n < least then
    [name.toList ++ " must be >= ".toList ++ Text.ofInt least ++ ", got ".toList ++ Text.ofInt n]
  else []

def AnalysisSettings.problems (s : AnalysisSettings) : List Text :=
  tooSmall "preview_lines" 0 s.previewLines ++ tooSmall "workers" 1 s.workers ++
    tooSmall "chunk_size" 0 s.chunkSize

end ProcCatalog
