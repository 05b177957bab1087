import ProcCatalog.Command.Run
import ProcCatalog.Proofs.Catalog.Export
import ProcCatalog.Proofs.Storage.Writing
import Mathlib

/-!
# Exports that stop

An export takes nothing back. One that fails leaves a beginning of its documents in their order,
the catalog before the bodies of the modules, and every other file as it was. It leaves all files
as they were if that of the catalog cannot be opened.
-/

namespace ProcCatalog

open Storage

namespace Catalog

variable {directory : Text} {folder now after : Folder} {c : Catalog}

/-! ## Documents in the order of writing -/

/-- The bodies of a module with the path of their file. Without a slug there is no such path. -/
def bodiesDocument (directory : Text) (l : Listing) : Outcome Text × Value :=
  ((slugOf l.code).map (bodiesPath directory), l.bodies)

/-- The documents of an export in the order of writing, with the paths of their files. -/
def filing (c : Catalog) (directory : Text) : List (Outcome Text × Value) :=
  (.ok (joinPath directory catalogName), c.document) :: c.listings.map (bodiesDocument directory)

def placed (d : Text × Value) : Outcome Text × Value := (.ok d.1, d.2)

/-- All documents were written, and the paths of their files are told. -/
def Exported (documents : List (Outcome Text × Value)) (folder after : Folder)
    (paths : List Text) : Prop :=
  ∃ whole, whole.map placed = documents ∧ whole.map Prod.fst = paths ∧
    folder.Written whole none after

/-- Not all documents were written: in their order, those of `whole` were, and the one behind them
was broken off if it is `part`. -/
structure Interrupted (documents : List (Outcome Text × Value)) (folder after : Folder)
    (whole : List (Text × Value)) (part : Option (Text × Value)) : Prop where
  inOrder : (whole ++ part.toList).map placed <+: documents
  unfinished : whole.length < documents.length
  written : folder.Written whole part after

variable {documents : List (Outcome Text × Value)} {whole : List (Text × Value)}

/-- The first document that is not written whole is the only one that may have been begun. -/
theorem Interrupted.of_next {d : Outcome Text × Value} {rest : List (Outcome Text × Value)}
    {part : Option (Text × Value)} (hdocuments : documents = whole.map placed ++ d :: rest)
    (hpart : ∀ e ∈ part, placed e = d) (h : folder.Written whole part after) :
    Interrupted documents folder after whole part := by
  refine ⟨?_, by simp [hdocuments], h⟩
  rw [hdocuments, List.map_append, List.prefix_append_right_inj]
  cases part with
  | none => exact List.nil_prefix
  | some e => simp [hpart e rfl]

theorem Interrupted.of_writeChunks {holder name : Text} {v : Value} {fault : Fault}
    {rest : List (Outcome Text × Value)} (hname : FileName name)
    (h : folder.Written whole none now)
    (hapart : ∀ d ∈ whole, d.1 ≠ joinPath holder name → now.Apart (joinPath holder name) d.1)
    (hdocuments : documents = whole.map placed ++ placed (joinPath holder name, v) :: rest)
    (hwrite : now.writeChunks (joinPath holder name) v.chunks = (after, .error fault)) :
    Interrupted documents folder after whole
      (if now.Writable (joinPath holder name) then some (joinPath holder name, v) else none) := by
  refine .of_next hdocuments (fun e he => ?_) (h.stop hname hapart hwrite)
  rw [Option.mem_ite_none_right] at he
  rw [← Option.some.inj he.2]

/-! ## Writing the bodies -/

def IsTarget (directory path : Text) : Prop :=
  path = joinPath directory catalogName ∨ ∃ name, IsSlug name ∧ path = bodiesPath directory name

theorem IsTarget.apart {name path : Text} (h : IsTarget directory path) (hname : IsSlug name)
    (hne : path ≠ bodiesPath directory name) :
    folder.Apart (bodiesPath directory name) path := by
  obtain rfl | ⟨name', hname', rfl⟩ := h
  · exact (Folder.apart_of_below fileName_catalogName fileName_bodiesName hname.fileName).symm
  · refine Folder.apart_of_ne hname.fileName hname'.fileName fun heq => hne ?_
    rw [List.append_cancel_right_eq] at heq
    rw [heq]

/-- How the writing of some documents ended, which had come as far as `whole`. -/
def Ends (documents : List (Outcome Text × Value)) (folder : Folder)
    (whole : List (Text × Value)) : Folder × Outcome (List Text) → Prop
  | (after, .ok paths) => Exported documents folder after paths
  | (after, .error _) => ∃ more part, Interrupted documents folder after (whole ++ more) part

theorem Ends.of_append {more : List (Text × Value)} {outcome : Folder × Outcome (List Text)}
    (h : Ends documents folder (whole ++ more) outcome) : Ends documents folder whole outcome := by
  obtain ⟨after, result⟩ := outcome
  cases result with
  | ok paths => exact h
  | error fault =>
      obtain ⟨later, part, h⟩ := h
      exact ⟨more ++ later, part, by rwa [← List.append_assoc]⟩

theorem ends_writeBodies {ls : List Listing} (h : folder.Written whole none now)
    (htargets : ∀ d ∈ whole, IsTarget directory d.1)
    (hdocuments : documents = whole.map placed ++ ls.map (bodiesDocument directory)) :
    Ends documents folder whole
      (writeBodies (joinPath directory bodiesName) now (whole.map Prod.fst).reverse ls) := by
  -- On the modules that are still to be written; what was written before them grows.
  induction ls generalizing whole now with
  | nil => exact ⟨whole, by simp [hdocuments], by simp, h⟩
  | cons l ls ih =>
      rw [List.map_cons, bodiesDocument] at hdocuments
      rw [writeBodies]
      cases hname : slugOf l.code with
      | error fault =>
          exact ⟨[], none, .of_next (by simpa using hdocuments) (by simp) (by simpa using h)⟩
      | ok name =>
          have hslug := isSlug_of_slugOf hname
          have hpath : joinPath (joinPath directory bodiesName) (name ++ ".json".toList) =
              bodiesPath directory name := rfl
          have happend : documents = whole.map placed ++
              placed (bodiesPath directory name, l.bodies) ::
                ls.map (bodiesDocument directory) := by
            rw [hdocuments, hname]
            rfl
          have hapart : ∀ d ∈ whole, d.1 ≠ bodiesPath directory name →
              now.Apart (bodiesPath directory name) d.1 :=
            fun d hd hne => (htargets d hd).apart hslug hne
          dsimp only
          rw [hpath]
          cases hwrite : now.writeChunks (bodiesPath directory name) l.bodies.chunks with
          | mk next outcome =>
              cases outcome with
              | error fault =>
                  have hstop := Interrupted.of_writeChunks hslug.fileName h hapart happend hwrite
                  rw [← List.append_nil whole] at hstop
                  exact ⟨[], _, hstop⟩
              | ok _ =>
                  have htargets' : ∀ d ∈ whole ++ [(bodiesPath directory name, l.bodies)],
                      IsTarget directory d.1 :=
                    List.forall_mem_append.mpr ⟨htargets,
                      List.forall_mem_singleton.mpr (.inr ⟨name, hslug, rfl⟩)⟩
                  have hends := ih (h.concat hapart hwrite) htargets' (by simp [happend])
                  rw [List.map_append, List.reverse_append] at hends
                  exact hends.of_append

/-! ## The whole export -/

def Opens (directory : Text) (folder : Folder) : Prop :=
  ∃ made, folder.makeDirectories (joinPath directory bodiesName) = (made, .ok ()) ∧
    made.Writable (joinPath directory catalogName)

/-- What is left of an export: all documents, or those of an interrupted one. The latter begins none
of them, and so leaves every file as it was, just when that of the catalog cannot be opened. -/
def Left (c : Catalog) (directory : Text) (folder : Folder) : Folder × Outcome (List Text) → Prop
  | (after, .ok paths) => Exported (c.filing directory) folder after paths
  | (after, .error _) => ∃ whole part,
      Interrupted (c.filing directory) folder after whole part ∧
        (whole = [] ∧ part = none ↔ ¬Opens directory folder)

/-- An export that nothing stands against succeeds, and any export leaves its documents in their
order. -/
structure Leaves (c : Catalog) (directory : Text) (folder : Folder)
    (outcome : Folder × Outcome (List Text)) : Prop where
  succeeds : c.Exportable directory folder → ∃ paths, outcome.2 = .ok paths
  left : c.Left directory folder outcome

private theorem Ends.left {d : Text × Value} {outcome : Folder × Outcome (List Text)}
    (h : Ends (c.filing directory) folder [d] outcome) (hopen : Opens directory folder) :
    c.Left directory folder outcome := by
  obtain ⟨after, result⟩ := outcome
  cases result with
  | ok paths => exact h
  | error fault =>
      obtain ⟨more, part, h⟩ := h
      exact ⟨[d] ++ more, part, h, by simp [hopen]⟩

theorem left_exportTo (c : Catalog) (directory : Text) (folder : Folder) :
    c.Left directory folder (c.exportTo directory folder) := by
  have hdocuments : c.filing directory = [].map placed ++
      placed (joinPath directory catalogName, c.document) ::
        c.listings.map (bodiesDocument directory) := rfl
  have hmade (place : Path) :
      folder.SameFile (folder.makeDirectories (joinPath directory bodiesName)).1 place :=
    Folder.sameFile_makeDirectories folder _
  rw [exportTo]
  dsimp only
  cases hmake : folder.makeDirectories (joinPath directory bodiesName) with
  | mk made outcome =>
      rw [hmake] at hmade
      have hstart := Folder.written_nil hmade
      cases outcome with
      | error fault =>
          refine ⟨[], none, .of_next hdocuments (by simp) hstart, ?_⟩
          simp [Opens, hmake]
      | ok _ =>
          have hopens : Opens directory folder ↔
              made.Writable (joinPath directory catalogName) := by
            simp [Opens, hmake]
          dsimp only
          cases hwrite : made.writeChunks (joinPath directory catalogName) c.document.chunks with
          | mk next outcome =>
              cases outcome with
              | error fault =>
                  have hstop := Interrupted.of_writeChunks fileName_catalogName hstart
                    (by simp) hdocuments hwrite
                  exact ⟨[], _, hstop, by simp [hopens]⟩
              | ok _ =>
                  have hcatalog := hstart.concat (by simp) hwrite
                  have hends := ends_writeBodies hcatalog
                    (List.forall_mem_singleton.mpr (.inl rfl)) hdocuments
                  obtain ⟨s, -, hbytes⟩ := Folder.writeChunks_eq_ok.mp hwrite
                  have hopen := hopens.mpr
                    ((Folder.exists_writeBytes_joinPath_iff fileName_catalogName _).mp
                      ⟨next, hbytes⟩)
                  exact hends.left hopen

theorem leaves_exportTo (c : Catalog) (directory : Text) (folder : Folder) :
    c.Leaves directory folder (c.exportTo directory folder) where
  succeeds h := by
    obtain ⟨after, paths, hexport⟩ := exists_exportTo_iff.mpr h
    exact ⟨paths, congrArg Prod.snd hexport⟩
  left := c.left_exportTo directory folder

end Catalog

/-! ## Exports of a cataloger -/

/-- The catalog that is exported: the one that is given, or that of the script file. -/
def Cataloger.toExport (c : Cataloger) (folder : Folder) (today : Text) (given : Option Catalog) :
    Outcome Catalog :=
  match given with
  | some catalog => .ok catalog
  | none => (c.analyze folder today).result

namespace Command

/-- The options of a scan, unless they are wrong or help is asked for. -/
def scanOptions (arguments : List Text) : Option Given :=
  match readArguments Name.scan.options true arguments with
  | .error _ => none
  | .ok g =>
    match g.has helpOption.name, g.checkAll Name.scan.options with
    | false, .ok () => some g
    | _, _ => none

/-- The catalog a scan makes under some options. -/
def toScan (g : Given) (folder : Folder) (today : Text) : Option Catalog :=
  match prepare g folder with
  | .ok (.ok cataloger) => (cataloger.analyze folder today).result.toOption
  | _ => none

variable {g : Given} {folder : Folder} {today : Text} {c : Catalog}

def outputDirectory (g : Given) : Text := g.text "output" "generated".toList

theorem scan_without_catalog (h : toScan g folder today = none) :
    (scan g folder today).folder = folder ∧ (scan g folder today).ending ≠ .done := by
  rw [toScan] at h
  rw [scan, withCatalog]
  split
  · exact ⟨rfl, by simp⟩
  · exact ⟨rfl, by simp⟩
  · rename_i cataloger hprepare
    simp only [hprepare] at h
    dsimp only
    split
    · rename_i catalog hcatalog
      simp [hcatalog, Except.toOption] at h
    · split
      · exact ⟨rfl, by simp⟩
      · exact ⟨rfl, by simp⟩

theorem scan_with_catalog (h : toScan g folder today = some c) :
    ∃ result, c.exportTo (outputDirectory g) folder = ((scan g folder today).folder, result) ∧
      ∀ fault, result = .error fault → (scan g folder today).ending = .failed fault := by
  rw [toScan] at h
  rw [scan, withCatalog]
  split at h
  · rename_i cataloger hprepare
    rw [hprepare]
    dsimp only
    cases hcatalog : (cataloger.analyze folder today).result with
    | error fault => simp [hcatalog, Except.toOption] at h
    | ok catalog =>
        obtain rfl : catalog = c := by simpa [hcatalog, Except.toOption] using h
        dsimp only
        rw [← outputDirectory]
        cases hexport : catalog.exportTo (outputDirectory g) folder with
        | mk after result =>
            cases result with
            | error fault => exact ⟨.error fault, rfl, by simp⟩
            | ok paths => exact ⟨.ok paths, rfl, by simp⟩
  · cases h

theorem runNamed_scan (arguments : List Text) (folder : Folder) (today : Text) :
    match scanOptions arguments with
    | none => (runNamed .scan arguments folder today).folder = folder
    | some g => runNamed .scan arguments folder today = scan g folder today := by
  rw [scanOptions, runNamed]
  cases readArguments Name.scan.options true arguments with
  | error fault => rfl
  | ok g =>
      dsimp only
      cases g.has helpOption.name with
      | true => rfl
      | false =>
          cases g.checkAll Name.scan.options with
          | error fault => rfl
          | ok _ => rfl

end Command

/-- An export writes all its documents, or a beginning of them and nothing else. A scan that makes a
catalog does so too, and fails if its export does; any other leaves its folder as it was. -/
theorem exports_in_order :
    (∀ (cataloger : Cataloger) (folder : Folder) (today directory : Text)
        (given : Option Catalog),
      let run := cataloger.exportTo folder today directory given
      match cataloger.toExport folder today given with
      | .error fault => run.folder = folder ∧ run.result = .error fault
      | .ok c => c.Leaves directory folder (run.folder, run.result)) ∧
    ∀ (arguments : List Text) (folder : Folder) (today : Text),
      let scanned := Command.runNamed .scan arguments folder today
      match Command.scanOptions arguments with
      | none => scanned.folder = folder
      | some g =>
        match Command.toScan g folder today with
        | none => scanned.folder = folder ∧ scanned.ending ≠ .done
        | some c => ∃ result,
          c.Leaves (Command.outputDirectory g) folder (scanned.folder, result) ∧
            ∀ fault, result = .error fault → scanned.ending = .failed fault := by
  constructor
  · intro cataloger folder today directory given
    cases given with
    | some catalog => exact catalog.leaves_exportTo directory folder
    | none =>
        dsimp only [Cataloger.exportTo, Cataloger.toExport]
        cases (cataloger.analyze folder today).result with
        | error fault => exact ⟨rfl, rfl⟩
        | ok catalog => exact catalog.leaves_exportTo directory folder
  · intro arguments folder today
    have hrun := Command.runNamed_scan arguments folder today
    dsimp only
    cases hoptions : Command.scanOptions arguments with
    | none => simpa only [hoptions] using hrun
    | some g =>
        simp only [hoptions] at hrun
        rw [hrun]
        dsimp only
        cases hcatalog : Command.toScan g folder today with
        | none => exact Command.scan_without_catalog hcatalog
        | some c =>
            obtain ⟨result, hexport, hfails⟩ := Command.scan_with_catalog hcatalog
            exact ⟨result, hexport ▸ c.leaves_exportTo (Command.outputDirectory g) folder, hfails⟩

/-! ## An export that is obstructed -/

/-- A folder with a script, in which a directory stands where the bodies of its only module are to
be written. -/
def obstructed : Folder where
  files := [(["in.sql".toList], encodeUtf8 "CREATE PROC a.P AS\nSELECT 1\n".toList)]
  directories := [["out".toList], ["out".toList, Catalog.bodiesName],
    ["out".toList, Catalog.bodiesName, "uncategorized.json".toList]]

def obstructedCataloger : Cataloger where
  input := { inputPath := "in.sql".toList, encoding := "utf-8".toList }

/-- The export fails, and so does the scan, but the file of the catalog is new. -/
theorem fails_with_new_file :
    let run := obstructedCataloger.exportTo obstructed "2020-01-01".toList "out".toList none
    let arguments := ["-i", "in.sql", "-e", "utf-8", "-o", "out"].map String.toList
    let scanned := Command.runNamed .scan arguments obstructed "2020-01-01".toList
    let fault : Fault := .isDirectory "out/sp-bodies/uncategorized.json".toList
    let place := ["out".toList, Catalog.catalogName]
    obstructed.entry place = .missing ∧
      run.result = .error fault ∧ run.folder.entry place ≠ .missing ∧
        scanned.ending = .failed fault ∧ scanned.folder.entry place ≠ .missing := by
  decide +kernel

end ProcCatalog
