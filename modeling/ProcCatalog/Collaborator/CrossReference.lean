import ProcCatalog.Assign.Module
import ProcCatalog.Collaborator.File
import ProcCatalog.Value.Display

/-!
# Cross-references

A cross-reference tells which places of application code call a procedure, and may hint at its
module. Entries of one procedure are merged: callers are collected, and the first hint counts.
-/

namespace ProcCatalog.Collaborator

open Storage

/-- A place of application code. Its parts are kept as they were read. -/
structure Caller where
  file : Value
  method : Value
  deriving Repr

def Caller.label (caller : Caller) : Value :=
  if caller.method.isTruthy then
    .str (caller.file.display ++ Text.raw "::".toList ++ caller.method.display)
  else caller.file

structure Entry where
  procedure : RawText
  callers : List Caller
  hint : Option Value
  deriving Repr

/-- Entries by procedure names in small letters, in the order in which they came up. -/
abbrev CrossReference := List (RawText × Entry)

/-! ## Reading -/

def callerOf? (v : Value) : Option Caller :=
  match v with
  | .obj _ =>
    (firstMember? v ["filePath", "file"]).map fun file =>
      ⟨file, (firstMember? v ["methodName", "method"]).getD (.str [])⟩
  | _ => none

def callerOfFile? : Value → Option Caller
  | .str file => if file.isEmpty then none else some ⟨.str file, .str []⟩
  | _ => none

/-- The callers of an entry; mere files count only where there are no callers. -/
def callersOf (entry : Value) : Outcome (List Caller) := do
  let callers := (← elementsOf entry ["callers", "calledBy"]).filterMap callerOf?
  if callers.isEmpty then
    return (← elementsOf entry ["calledFromFiles"]).filterMap callerOfFile?
  else return callers

def hintOf? (entry : Value) : Option Value :=
  (entry.member? "module".toList).bind Assign.usableHint?

def Entry.merge (a b : Entry) : Entry :=
  { a with callers := a.callers ++ b.callers, hint := a.hint <|> b.hint }

def addEntry (key : RawText) (entry : Entry) : CrossReference → CrossReference
  | [] => [(key, entry)]
  | (k, e) :: rest =>
    if k = key then (k, e.merge entry) :: rest else (k, e) :: addEntry key entry rest

def readEntries (reference : CrossReference) : List Value → Outcome CrossReference
  | [] => .ok reference
  | .obj members :: rest => do
    let name ← bareNameOf (.obj members) ["sprocName", "procedureName", "name"]
    if name.isEmpty then readEntries reference rest
    else
      let callers ← callersOf (.obj members)
      let entry : Entry := ⟨name, callers, hintOf? (.obj members)⟩
      readEntries (addEntry name.lower entry reference) rest
  | _ :: rest => readEntries reference rest

def entriesOf (v : Value) : Outcome (List Value) :=
  match v with
  | .obj _ => elementsOf v ["crossReference", "procedures"]
  | .arr entries => .ok entries
  | _ => .ok []

def loadCrossReference (folder : Folder) (path : Text) :
    Outcome (Option CrossReference) × List Warning :=
  match readFile folder .crossReference path with
  | (.error fault, warnings) => (.error fault, warnings)
  | (.ok none, warnings) => (.ok none, absence path warnings .callersUnavailable)
  | (.ok (some v), warnings) => ((do return some (← readEntries [] (← entriesOf v))), warnings)

/-! ## Use -/

def CrossReference.hints (reference : CrossReference) : List (RawText × Value) :=
  reference.filterMap fun (key, entry) => entry.hint.map fun hint => (key, hint)

/-- Each value once, in the order of the first occurrences. -/
def distinctKeys : List Value → List Value
  | [] => []
  | v :: vs => v :: (distinctKeys vs).filter fun w => !v.sameKey w

/-- The labels of the callers of a procedure, ascending, each once. -/
def CrossReference.labels (reference : CrossReference) (name : Text) : Outcome (List Value) :=
  match reference.lookup (Text.raw (Text.lower name)) with
  | none => .ok []
  | some entry =>
    let labels := entry.callers.map Caller.label
    if labels.all Value.isKey then Value.sorted (distinctKeys labels) else .error .wrongType

end ProcCatalog.Collaborator
