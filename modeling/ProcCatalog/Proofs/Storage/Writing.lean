import ProcCatalog.Proofs.Storage.Documents
import Mathlib

/-!
# Documents written in turn

Of documents that are written one after the other, the last of each path is in its file. One that
is broken off leaves a beginning of it in its own file, and takes from the files before it no more
than that.
-/

namespace ProcCatalog.Storage.Folder

variable {folder now next : Folder} {whole : List (Text × Value)} {path : Text} {v : Value}

/-- What was written of some documents: those of `whole` to their ends, and a beginning of `part`
if there is one. No other file has come, gone or changed. -/
structure Written (folder : Folder) (whole : List (Text × Value)) (part : Option (Text × Value))
    (after : Folder) : Prop where
  last : ∀ path v, whole.reverse.lookup path = some v → (∀ d ∈ part, d.1 ≠ path) →
    after.Holds path v
  beginning : ∀ d ∈ part, after.HoldsPart d.1 d.2
  others : ∀ place, (∀ d ∈ whole ++ part.toList, after.resolve d.1 ≠ .ok place) →
    folder.SameFile after place

theorem written_nil (h : ∀ place, folder.SameFile now place) : folder.Written [] none now where
  last _ _ hlast := nomatch hlast
  beginning _ hd := nomatch hd
  others place _ := h place

namespace Written

section

variable {bytes : Bytes} (h : folder.Written whole none now)
  (hbytes : now.writeBytes path bytes = .ok next)

include h hbytes

private theorem holds_writeBytes (hapart : ∀ d ∈ whole, d.1 ≠ path → now.Apart path d.1)
    {path' : Text} {w : Value} (hne : path' ≠ path)
    (hlast : whole.reverse.lookup path' = some w) : next.Holds path' w := by
  obtain ⟨s, hs, hread⟩ := h.last path' w hlast fun d hd => nomatch hd
  obtain ⟨before, behind, hwhole, -⟩ := List.lookup_eq_some_iff.mp hlast
  have hmem : (path', w) ∈ whole := List.mem_reverse.mp (by simp [hwhole])
  exact ⟨s, hs, readBytes_of_writeBytes_apart hbytes (hapart _ hmem hne) hread⟩

private theorem sameFile_writeBytes {place : Path} (hplace : next.resolve path ≠ .ok place)
    (hwhole : ∀ d ∈ whole, next.resolve d.1 ≠ .ok place) : folder.SameFile next place := by
  have hresolve {path' : Text} : next.resolve path' = .ok place ↔ now.resolve path' = .ok place :=
    resolve_eq_ok_congr (directories_of_writeBytes hbytes)
  have hnow : folder.SameFile now place :=
    h.others place (by simpa [hresolve] using hwhole)
  exact hnow.trans (sameFile_of_writeBytes hbytes (mt hresolve.mpr hplace))

end

/-- One more document was written. Where its path is that of an earlier one, it takes its place. -/
theorem concat (h : folder.Written whole none now)
    (hapart : ∀ d ∈ whole, d.1 ≠ path → now.Apart path d.1)
    (hwrite : now.writeChunks path v.chunks = (next, .ok ())) :
    folder.Written (whole ++ [(path, v)]) none next := by
  obtain ⟨s, -, hbytes⟩ := writeChunks_eq_ok.mp hwrite
  refine ⟨fun path' w hlast _ => ?_, fun _ hd => (nomatch hd), fun place hplace => ?_⟩
  · rw [List.reverse_concat, List.lookup_cons] at hlast
    cases hpath : path' == path with
    | true =>
        rw [hpath] at hlast
        rw [eq_of_beq hpath, ← Option.some.inj hlast]
        exact holds_of_writeChunks hwrite
    | false =>
        rw [hpath] at hlast
        exact h.holds_writeBytes hbytes hapart (ne_of_beq_false hpath) hlast
  · simp only [Option.toList_none, List.append_nil, List.forall_mem_append,
      List.forall_mem_singleton] at hplace
    exact h.sameFile_writeBytes hbytes hplace.2 hplace.1

/-- One more document was not written. It is broken off if its file could be opened. -/
theorem stop {directory name : Text} {fault : Fault} (hname : FileName name)
    (h : folder.Written whole none now)
    (hapart : ∀ d ∈ whole, d.1 ≠ joinPath directory name →
      now.Apart (joinPath directory name) d.1)
    (hwrite : now.writeChunks (joinPath directory name) v.chunks = (next, .error fault)) :
    folder.Written whole
      (if now.Writable (joinPath directory name) then some (joinPath directory name, v) else none)
      next := by
  obtain ⟨s, hs, ⟨⟨fault', hfault⟩, rfl⟩ | hbytes⟩ := writeChunks_eq_error hwrite
  · have hclosed : ¬next.Writable (joinPath directory name) := by
      rw [← exists_writeBytes_joinPath_iff hname (encodeUtf8 s), hfault]
      simp
    rwa [if_neg hclosed]
  · rw [if_pos ((exists_writeBytes_joinPath_iff hname _).mp ⟨next, hbytes⟩)]
    refine ⟨fun path' w hlast hne => ?_, fun d hd => ?_, fun place hplace => ?_⟩
    · exact h.holds_writeBytes hbytes hapart (hne _ rfl).symm hlast
    · exact Option.some.inj hd ▸ ⟨s, hs, readBytes_of_writeBytes hbytes⟩
    · simp only [Option.toList_some, List.forall_mem_append, List.forall_mem_singleton] at hplace
      exact h.sameFile_writeBytes hbytes hplace.2 hplace.1

end Written

end ProcCatalog.Storage.Folder
