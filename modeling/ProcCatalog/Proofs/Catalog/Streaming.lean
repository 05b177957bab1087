import ProcCatalog.Cataloger
import ProcCatalog.Proofs.Script.Readings
import ProcCatalog.Proofs.Storage.Files

/-!
# Streamed scripts

What a source serves is cut into lines of a file. Where a script reads alike by lines of prose, it
makes no difference for its blocks, and for the catalog that is made of them, whether the script is
at hand or streamed; elsewhere it does.
-/

namespace ProcCatalog

open Script

/-- What is left in an open source is this text. -/
def Source.Serves (source : Source) (t : Text) : Prop :=
  ∃ ls, source.readLines.1 = .ok ls ∧ ls.flatten = t

namespace Source

variable {source : Source} {t : Text}

theorem readLines_of_serves (h : source.Serves t) :
    source.readLines.1 = .ok (Text.fileLines t) := by
  obtain ⟨ls, hls, rfl⟩ := h
  rw [readLines] at hls ⊢
  split at hls
  · simp at hls
  · rename_i handle _
    cases hrest : handle.readRest.1 with
    | error fault => simp [hrest, Except.map] at hls
    | ok s =>
        simp only [hrest, Except.map, Except.ok.injEq] at hls ⊢
        rw [← hls, Text.flatten_fileLines]

theorem readBlocks_of_serves (h : source.Serves t) (splitter : Splitter) :
    (source.readBlocks splitter).1 = .ok (splitter.splitLines (Text.fileLines t)) := by
  rw [readBlocks]
  simp only [readLines_of_serves h]
  rfl

theorem exists_opened_text (t name : Text) (folder : Storage.Folder) :
    ∃ source, (ofText t name).opened folder = .ok source ∧ source.Serves t :=
  ⟨_, rfl, _, rfl, Text.flatten_fileLines t⟩

end Source

/-! ## Runs -/

def Catalog.relabel (c : Catalog) (source exportDate : Text) : Catalog :=
  { c with source, exportDate }

theorem Catalog.build_relabel (setting : Setting) (analysis : Analysis)
    (source exportDate : Text) :
    build { setting with source, exportDate } analysis =
      (build setting analysis).map (·.relabel source exportDate) := by
  simp only [build]
  cases withCodeCallers setting.crossReference analysis.procedures with
  | error fault => rfl
  | ok ps =>
      simp only [bind, Except.bind]
      split <;> rfl

def Run.relabel (run : Run) (source exportDate : Text) : Run :=
  { run with result := run.result.map (·.relabel source exportDate) }

namespace Cataloger

variable (c : Cataloger) (folder : Storage.Folder) (today : Text)

/-- The name and the path of a script show in the name and the date of its catalog only. -/
theorem runOn_relabel (blocks : List Block) (count : Nat) (name path name' path' : Text) :
    c.runOn folder today blocks count name path =
      (c.runOn folder today blocks count name' path').relabel name
        (ExportDate.resolve c.input.exportDate (Storage.baseName path) today) := by
  rw [runOn, runOn]
  split
  · cases c.collaboratorsFor folder with
    | mk result warnings =>
        cases result with
        | error fault => rfl
        | ok kept =>
            simp only [Run.relabel, Run.mk.injEq, catalogOf, and_true]
            exact Catalog.build_relabel
              { rules := c.rules
                crossReference := kept.crossReference.getD []
                hotspotLimit := c.analysis.hotspotLimit
                source := name'
                exportDate := ExportDate.resolve c.input.exportDate (Storage.baseName path') today
                totalBatches := count } _ _ _
  · rfl

theorem isFile_of_readBytes {path : Text} {bytes : Storage.Bytes}
    (h : folder.readBytes path = .ok bytes) : folder.isFile path = true := by
  rw [Storage.Folder.isFile, Storage.Folder.readBytes_eq_ok_iff.mp h]

theorem isFile_of_opened {path encoding : Text} {source : Source}
    (h : (Source.ofFile path encoding).opened folder = .ok source) :
    folder.isFile path = true := by
  cases hbytes : folder.readBytes path with
  | ok bytes => exact isFile_of_readBytes folder hbytes
  | error fault =>
      simp only [Source.ofFile, Source.opened, Source.Origin.handle, hbytes] at h
      split at h <;> simp [bind, Except.bind, Except.map, throw, throwThe] at h

theorem analyze_of_serves {source : Source} {t : Text}
    (hopen : (Source.ofFile c.input.inputPath c.input.encoding).opened folder = .ok source)
    (h : source.Serves t) :
    c.analyze folder today =
      let (blocks, splitter) := Splitter.splitLines {} (Text.fileLines t)
      c.runOn folder today blocks splitter.batchesSeen (Storage.baseName c.input.inputPath)
        c.input.inputPath := by
  rw [analyze]
  simp only [isFile_of_opened folder hopen, Source.whileOpen, hopen,
    Source.readBlocks_of_serves h, Bool.not_true, Bool.false_eq_true, if_false]

end Cataloger

/-! ## Agreement -/

/-- The blocks of a served script are those of the script at hand, with batches of the same texts,
exactly if it reads alike; then its analysis is the analysis of the script at hand. -/
theorem readBlocks_eq_split_iff {source : Source} {t : Text} (h : source.Serves t) :
    (∀ splitter : Splitter,
      (batches (Text.lines t)).map (·.text) = (batches (Text.fileLines t)).map (·.text) ∧
          (source.readBlocks splitter).1 = .ok (splitter.split t) ↔
        ReadsAlike t) ∧
      (ReadsAlike t → ∀ (c : Cataloger) (folder : Storage.Folder) (today name : Text),
        (Source.ofFile c.input.inputPath c.input.encoding).opened folder = .ok source →
          c.analyze folder today =
            (c.analyzeText folder today t name).relabel (Storage.baseName c.input.inputPath)
              (ExportDate.resolve c.input.exportDate (Storage.baseName c.input.inputPath)
                today)) := by
  constructor
  · intro splitter
    rw [Source.readBlocks_of_serves h, Except.ok.injEq,
      ← split_eq_splitLines_fileLines_iff splitter]
    exact and_congr_right fun _ => eq_comm
  · intro halike c folder today name hopen
    have hsplit := ((split_eq_splitLines_fileLines_iff {} t).mpr halike).2
    rw [c.analyze_of_serves folder today hopen h, Cataloger.analyzeText, ← hsplit]
    exact c.runOn_relabel folder today _ _ _ _ _ _

/-- A file in UTF-16 with a form feed in its last batch is read alike. -/
theorem readBlocks_eq_split_of_late_form_feed :
    ∃ (c : Cataloger) (folder : Storage.Folder) (source : Source),
      (Source.ofFile c.input.inputPath c.input.encoding).opened folder = .ok source ∧
        source.Serves "GO\r\nCREATE PROC a.P AS\x0c".toList ∧
        ReadsAlike "GO\r\nCREATE PROC a.P AS\x0c".toList ∧
        (source.readBlocks {}).1 =
          .ok (Splitter.split {} "GO\r\nCREATE PROC a.P AS\x0c".toList) ∧
        ∀ today name, c.analyze folder today =
          (c.analyzeText folder today "GO\r\nCREATE PROC a.P AS\x0c".toList name).relabel
            "b.sql".toList (ExportDate.resolve [] "b.sql".toList today) := by
  let t : Text := "GO\r\nCREATE PROC a.P AS\x0c".toList
  let bytes : Storage.Bytes := 0xff :: 0xfe :: t.flatMap fun c => [c.toNat.toUInt8, 0]
  let folder : Storage.Folder := { files := [(["b.sql".toList], bytes)] }
  let c : Cataloger := { input := { inputPath := "b.sql".toList } }
  let source : Source :=
    { Source.ofFile "b.sql".toList "utf-16".toList with handle := some (.ofBytes .utf16 bytes) }
  have hopen : (Source.ofFile "b.sql".toList "utf-16".toList).opened folder = .ok source := by
    decide +kernel
  have hserves : source.Serves t := ⟨_, by decide +kernel, Text.flatten_fileLines t⟩
  have halike : ReadsAlike t := by decide +kernel
  have hall := readBlocks_eq_split_iff hserves
  exact ⟨c, folder, source, hopen, hserves, halike, ((hall.1 {}).mpr halike).2,
    fun today name => hall.2 halike c folder today name hopen⟩

/-- A form feed in front of a line feed counts as a line of its own only in a script at hand. -/
theorem split_ne_readBlocks_at_form_feed :
    ∃ source : Source,
      (Source.ofText "SELECT 1\x0c\nGO\nCREATE PROC a.P AS\n".toList).opened {} = .ok source ∧
        (source.readBlocks {}).1 = .ok ([⟨"CREATE PROC a.P AS".toList, 1, 3⟩], ⟨2, 1⟩) ∧
        Splitter.split {} "SELECT 1\x0c\nGO\nCREATE PROC a.P AS\n".toList =
          ([⟨"CREATE PROC a.P AS".toList, 1, 4⟩], ⟨2, 1⟩) := by
  refine ⟨_, rfl, ?_, ?_⟩
  · decide +kernel
  · decide +kernel

end ProcCatalog
