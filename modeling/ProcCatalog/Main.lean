import ProcCatalog.Catalog.ExportDate
import ProcCatalog.Command.Run
import ProcCatalog.Report.Plain
import Std.Time.DateTime

/-!
# The program

Reads the files that the command needs, runs it, writes the files that it changed, and prints.
-/

namespace ProcCatalog.Program

def today : IO Text := do
  let date := Std.Time.PlainDate.ofEpochDay (← Std.Time.Timestamp.now).toDaysSinceUnixEpoch
  return (ExportDate.Date.mk date.year.toInt.toNat date.month.val.toNat date.day.val.toNat).write

def readFolder (paths : List Text) : IO Storage.Folder :=
  paths.foldlM (fun folder path => do
    match ← (IO.FS.readBinFile (String.ofList path)).toBaseIO with
    | .ok bytes => return (folder.place path bytes.toList).1
    | .error _ => return folder) {}

def writeFile (file : Storage.Path × Storage.Bytes) : IO Unit := do
  if 1 < file.1.length then
    IO.FS.createDirAll (String.ofList (Text.joinWith ['/'] file.1.dropLast))
  IO.FS.writeBinFile (String.ofList (Text.joinWith ['/'] file.1)) (ByteArray.mk file.2.toArray)

def report (result : Command.Result) : IO Unit := do
  for w in result.warnings do IO.eprintln (String.ofList w.message)
  for item in result.items do
    for line in item.plainLines do IO.println (String.ofList line)
  IO.print (String.ofList result.output)
  match result.ending with
  | .misused fault => IO.eprintln (String.ofList fault.line)
  | .failed fault => IO.eprintln (String.ofList fault.message)
  | _ => return ()

end ProcCatalog.Program

open ProcCatalog in
def main (args : List String) : IO UInt32 := do
  let arguments := args.map (·.toList)
  let folder ← Program.readFolder (Command.filesNeeded arguments)
  let result := Command.run arguments folder (← Program.today)
  (result.folder.changesSince folder).forM Program.writeFile
  Program.report result
  return result.ending.exitCode.toUInt32
