import ProcCatalog.Script.Block
import ProcCatalog.Storage.Folder

/-!
# Script sources

A source serves a script line by line, each line with its break. It is a text at hand or an
encoded file, which is decoded chunk by chunk. Reading goes on where it stopped until the source is
closed. A fault ends a reading and drops what was read so far, but the source stays open.
-/

namespace ProcCatalog

open Storage

/-- What an open source still holds. -/
inductive Handle where
  | text (rest : Text)
  /-- The chunks to come, and a carriage return whose line feed may still come. -/
  | file (decoder : Decoder) (held : Text) (chunks : List Bytes)
  deriving DecidableEq, Repr

namespace Handle

def chunkSize : Nat := 8192

/-- Cuts a row of bytes into chunks; `rounds` bounds their number. -/
def cutChunks : Nat → Bytes → List Bytes
  | 0, _ => []
  | rounds + 1, bytes =>
    if bytes.isEmpty then []
    else bytes.take chunkSize :: cutChunks rounds (bytes.drop chunkSize)

def ofBytes (encoding : Encoding) (bytes : Bytes) : Handle :=
  .file { encoding } [] (cutChunks (bytes.length / chunkSize + 1) bytes)

/-- Parts a trailing carriage return from a text. -/
def holdReturn (s : Text) : Text × Text :=
  if s.getLast? = some '\r' then (s.dropLast, ['\r']) else (s, [])

def readFile (decoder : Decoder) (held : Text) (read : List Text) :
    List Bytes → Outcome Text × Handle
  | [] =>
    match decoder.feed true [] with
    | (.ok s, d) => (.ok ((held ++ s) :: read).reverse.flatten, .file d [] [])
    | (.error e, d) => (.error (.undecodable e), .file d held [])
  | chunk :: chunks =>
    match decoder.feed false chunk with
    | (.ok s, d) =>
      if s.isEmpty then readFile d held read chunks
      else
        let (part, held') := holdReturn (held ++ s)
        readFile d held' (part :: read) chunks
    | (.error e, d) => (.error (.undecodable e), .file d held chunks)

def readRest : Handle → Outcome Text × Handle
  | .text rest => (.ok rest, .text [])
  | .file decoder held chunks => readFile decoder held [] chunks

end Handle

/-! ## Sources -/

inductive Origin where
  | text (content : Text)
  | file (path encoding : Text)
  deriving DecidableEq, Repr

structure Source where
  origin : Origin
  name : Text
  handle : Option Handle := none
  deriving DecidableEq, Repr

namespace Source

def ofText (content : Text) (name : Text := "<text>".toList) : Source :=
  { origin := .text content, name }

def ofFile (path encoding : Text) : Source :=
  { origin := .file path encoding, name := baseName path }

def isOpen (source : Source) : Bool := source.handle.isSome

def Origin.handle (folder : Folder) : Origin → Outcome Handle
  | .text content => .ok (.text content)
  | .file path encoding => do
    if holdsNull encoding && folder.isThere path then throw .nullInEncoding
    let bytes ← folder.readBytes path
    match Encoding.ofName? encoding with
    | some e => return .ofBytes e bytes
    | none => throw (.unknownEncoding encoding)

/-- Opens a source that is closed; an open one is left as it is. -/
def opened (source : Source) (folder : Folder) : Outcome Source :=
  match source.handle with
  | some _ => .ok source
  | none => (Origin.handle folder source.origin).map fun h => { source with handle := some h }

def closed (source : Source) : Source := { source with handle := none }

def readLines (source : Source) : Outcome (List Text) × Source :=
  match source.handle with
  | none => (.error .notOpen, source)
  | some h =>
    let (result, h') := h.readRest
    (result.map Text.fileLines, { source with handle := some h' })

def readBlocks (source : Source) (splitter : Script.Splitter) :
    Outcome (List Script.Block × Script.Splitter) × Source :=
  let (result, source') := source.readLines
  (result.map splitter.splitLines, source')

/-- Opens a source, reads from it and closes it, whatever comes of the reading. -/
def whileOpen {α : Type} (source : Source) (folder : Folder) (read : Source → Outcome α × Source) :
    Outcome α × Source :=
  match source.opened folder with
  | .error fault => (.error fault, source)
  | .ok s =>
    let (result, s') := read s
    (result, s'.closed)

end Source

end ProcCatalog
