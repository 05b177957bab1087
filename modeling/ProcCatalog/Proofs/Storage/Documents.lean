import ProcCatalog.Proofs.Outcome
import ProcCatalog.Proofs.Storage.Changes
import ProcCatalog.Proofs.Storage.Decoding
import ProcCatalog.Proofs.Storage.Encoding
import ProcCatalog.Proofs.Text.Lines
import ProcCatalog.Proofs.Value.ReadBack
import ProcCatalog.Proofs.Value.Whole
import Mathlib

/-!
# Documents in files

A document that holds no half of a surrogate pair is written wherever a file can stand. It is then
in its file, and every file of another name holds what it held.
-/

namespace ProcCatalog.Storage

namespace Folder

variable {folder written : Folder} {path : Text} {v : Value}

/-- The file at a path is the text of a document, in UTF-8. -/
def Holds (folder : Folder) (path : Text) (v : Value) : Prop :=
  ∃ s, v.write = Text.raw s ∧ folder.readBytes path = .ok (encodeUtf8 s)

/-- The file at a path is a beginning of a document, in UTF-8. -/
def HoldsPart (folder : Folder) (path : Text) (v : Value) : Prop :=
  ∃ s, Text.raw s <+: v.write ∧ folder.readBytes path = .ok (encodeUtf8 s)

/-- The folder after a document was written to a path. -/
def Puts (folder : Folder) (path : Text) (v : Value) (written : Folder) : Prop :=
  ∃ place s, folder.resolve path = .ok place ∧ folder.entry place ≠ .directory ∧
    v.write = Text.raw s ∧ written = folder.withFile place (encodeUtf8 s)

theorem exists_puts_iff : (∃ written, folder.Puts path v written) ↔
    folder.Writable path ∧ v.isWhole = true := by
  rw [← Value.isWhole_write, RawText.isWhole_iff]
  constructor
  · rintro ⟨written, place, s, hplace, hentry, hs, -⟩
    exact ⟨⟨place, hplace, hentry⟩, s, hs⟩
  · rintro ⟨⟨place, hplace, hentry⟩, s, hs⟩
    exact ⟨_, place, s, hplace, hentry, hs, rfl⟩

namespace Puts

theorem directories (h : folder.Puts path v written) :
    written.directories = folder.directories := by
  obtain ⟨place, s, -, -, -, rfl⟩ := h
  rfl

theorem holds (h : folder.Puts path v written) : written.Holds path v := by
  have hdirs := h.directories
  obtain ⟨place, s, hplace, hentry, hs, rfl⟩ := h
  refine ⟨s, hs, ?_⟩
  have hplace := (resolve_eq_ok_congr hdirs).mpr hplace
  rw [readBytes, hplace]
  dsimp only
  rw [entry_withFile hentry]

theorem holds_other {directory directory' name name' : Text} {w : Value}
    (h : folder.Puts (joinPath directory name) v written) (hname : FileName name)
    (hname' : FileName name') (hne : name' ≠ name)
    (hw : folder.Holds (joinPath directory' name') w) :
    written.Holds (joinPath directory' name') w := by
  obtain ⟨place, s, hplace, hentry, -, hput⟩ := h
  have hbytes := (writeBytes_joinPath hname).mpr ⟨place, hplace, hentry, hput⟩
  obtain ⟨t, ht, hread⟩ := hw
  exact ⟨t, ht, readBytes_of_writeBytes_apart hbytes (apart_of_ne hname hname' hne.symm) hread⟩

end Puts

/-- Writing a document chunk by chunk succeeds exactly if it has a text and its bytes are
written. -/
theorem writeChunks_eq_ok :
    folder.writeChunks path v.chunks = (written, .ok ()) ↔
      ∃ s, v.write = Text.raw s ∧ folder.writeBytes path (encodeUtf8 s) = .ok written := by
  constructor
  · intro h
    rw [writeChunks] at h
    dsimp only at h
    cases hbytes : folder.writeBytes path (encodeChunks v.chunks).1 with
    | error fault => simp [hbytes] at h
    | ok folder' =>
        rw [hbytes] at h
        obtain ⟨rfl, hwhole⟩ := Prod.mk.inj h
        have hwhole : (encodeChunks v.chunks).2 = true := by
          by_contra hno
          simp [hno] at hwhole
        obtain ⟨s, hs⟩ := exists_raw_of_encodeChunks hwhole
        rw [encodeChunks_eq hs] at hbytes
        exact ⟨s, hs, hbytes⟩
  · rintro ⟨s, hs, hbytes⟩
    rw [writeChunks, encodeChunks_eq hs]
    dsimp only
    rw [hbytes]
    rfl

/-- A writing that failed has opened no file, or left a beginning of the document in it. -/
theorem writeChunks_eq_error {fault : Fault}
    (h : folder.writeChunks path v.chunks = (written, .error fault)) :
    ∃ s, Text.raw s <+: v.write ∧
      ((∃ fault, folder.writeBytes path (encodeUtf8 s) = .error fault) ∧ written = folder ∨
        folder.writeBytes path (encodeUtf8 s) = .ok written) := by
  obtain ⟨s, hs, hbytes⟩ := exists_prefix_of_encodeChunks v.chunks
  refine ⟨s, hs, ?_⟩
  rw [writeChunks] at h
  dsimp only at h
  rw [hbytes] at h
  cases hwrite : folder.writeBytes path (encodeUtf8 s) with
  | error fault =>
      rw [hwrite] at h
      exact .inl ⟨⟨fault, rfl⟩, (Prod.mk.inj h).1.symm⟩
  | ok folder' =>
      rw [hwrite] at h
      exact .inr (congrArg Except.ok (Prod.mk.inj h).1)

/-- A document is written to a named file exactly where it can be put. -/
theorem writeChunks_joinPath {directory name : Text} (hname : FileName name) :
    folder.writeChunks (joinPath directory name) v.chunks = (written, .ok ()) ↔
      folder.Puts (joinPath directory name) v written := by
  rw [writeChunks_eq_ok]
  constructor
  · rintro ⟨s, hs, hbytes⟩
    obtain ⟨place, hplace, hentry, hput⟩ := (writeBytes_joinPath hname).mp hbytes
    exact ⟨place, s, hplace, hentry, hs, hput⟩
  · rintro ⟨place, s, hplace, hentry, hs, hput⟩
    exact ⟨s, hs, (writeBytes_joinPath hname).mpr ⟨place, hplace, hentry, hput⟩⟩

/-! ## Reading -/

/-- A document that was written, under whatever path, is in its file. -/
theorem holds_of_writeChunks (h : folder.writeChunks path v.chunks = (written, .ok ())) :
    written.Holds path v := by
  obtain ⟨s, hs, hbytes⟩ := writeChunks_eq_ok.mp h
  exact ⟨s, hs, readBytes_of_writeBytes hbytes⟩

theorem Holds.readValue_eq (h : folder.Holds path v) (hv : v.Readable) :
    folder.readValue path = .ok v := by
  obtain ⟨s, hs, hbytes⟩ := h
  have htext : folder.readText path = .ok s := by
    refine Outcome.bind_eq_ok.mpr ⟨_, hbytes, ?_⟩
    rw [decodeUtf8_encodeUtf8]
    exact congrArg Except.ok (Text.unifyBreaks_eq_self (hv.return_not_mem hs))
  refine Outcome.bind_eq_ok.mpr ⟨s, htext, ?_⟩
  rw [hv.read_eq hs]
  rfl

end Folder

end ProcCatalog.Storage
