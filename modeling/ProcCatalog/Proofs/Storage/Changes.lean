import ProcCatalog.Proofs.Storage.Files

/-!
# What changes in a folder

Writing changes one file, which is read back as it was written until the same place is written once
more. Making directories changes no file.
-/

namespace ProcCatalog.Storage.Folder

variable {folder : Folder} {place : Path} {path : Text} {bytes : Bytes}

/-! ## Writing a file -/

/-- The file that stands at a place, if one does, is the same in both folders. -/
def SameFile (folder after : Folder) (place : Path) : Prop :=
  ∀ bytes, after.entry place = .file bytes ↔ folder.entry place = .file bytes

theorem SameFile.trans {between after : Folder} (h : folder.SameFile between place)
    (h' : between.SameFile after place) : folder.SameFile after place :=
  fun bytes => (h' bytes).trans (h bytes)

private theorem exists_of_writeBytes {written : Folder}
    (h : folder.writeBytes path bytes = .ok written) :
    ∃ place, folder.resolve path = .ok place ∧ folder.entry place ≠ .directory ∧
      written = folder.withFile place bytes := by
  rw [writeBytes] at h
  cases hplace : folder.resolve path with
  | error obstacle => simp [hplace] at h
  | ok place =>
      rw [hplace] at h
      dsimp only at h
      have hentry : folder.entry place ≠ .directory := fun heq => by simp [heq] at h
      refine ⟨place, rfl, hentry, ?_⟩
      cases hplaced : folder.entry place <;> cases hholder : folder.entry (holder place) <;>
        simp [hplaced, hholder] at h <;> exact h.symm

section

variable {written : Folder} (h : folder.writeBytes path bytes = .ok written)

include h

theorem directories_of_writeBytes : written.directories = folder.directories := by
  obtain ⟨place, -, -, rfl⟩ := exists_of_writeBytes h
  rfl

theorem readBytes_of_writeBytes : written.readBytes path = .ok bytes := by
  have hdirs := directories_of_writeBytes h
  obtain ⟨place, hplace, hentry, rfl⟩ := exists_of_writeBytes h
  have hplace' := (resolve_eq_ok_congr hdirs).mpr hplace
  rw [readBytes, hplace']
  dsimp only
  rw [entry_withFile hentry]

/-- A file that stands apart from the one that was written holds what it held. -/
theorem readBytes_of_writeBytes_apart {path' : Text} {held : Bytes}
    (hapart : folder.Apart path path') (hread : folder.readBytes path' = .ok held) :
    written.readBytes path' = .ok held := by
  have hdirs := directories_of_writeBytes h
  obtain ⟨place, hplace, -, rfl⟩ := exists_of_writeBytes h
  rw [readBytes] at hread ⊢
  cases hplace' : folder.resolve path' with
  | error obstacle => simp [hplace'] at hread
  | ok place' =>
      have hne : place' ≠ place := fun heq => hapart place hplace (heq ▸ hplace')
      rw [hplace'] at hread
      rw [(resolve_eq_ok_congr hdirs).mpr hplace']
      dsimp only at hread ⊢
      rwa [entry_withFile_of_ne hne]

theorem sameFile_of_writeBytes (hplace : folder.resolve path ≠ .ok place) :
    folder.SameFile written place := by
  obtain ⟨place', hplace', -, rfl⟩ := exists_of_writeBytes h
  have hne : place ≠ place' := fun heq => hplace (heq ▸ hplace')
  intro held
  rw [entry_withFile_of_ne hne]

end

theorem exists_writeBytes_joinPath_iff {directory name : Text} (hname : FileName name)
    (bytes : Bytes) :
    (∃ written, folder.writeBytes (joinPath directory name) bytes = .ok written) ↔
      folder.Writable (joinPath directory name) := by
  simp only [writeBytes_joinPath hname]
  constructor
  · rintro ⟨_, place, hplace, hentry, -⟩
    exact ⟨place, hplace, hentry⟩
  · rintro ⟨place, hplace, hentry⟩
    exact ⟨_, place, hplace, hentry, rfl⟩

/-! ## Making directories -/

private theorem exists_of_makeDirectory {made : Folder} (h : folder.makeDirectory path = .ok made) :
    ∃ place, folder.entry place = .missing ∧
      made = { folder with directories := folder.directories ++ [place] } := by
  rw [makeDirectory] at h
  dsimp only at h
  split at h
  · cases h
  · split at h <;> try cases h
    split at h
    · cases h
    · split at h
      · cases h
      · rename_i hmissing
        exact ⟨_, by simpa using hmissing, (Except.ok.inj h).symm⟩

/-- A directory is made where nothing stands, so that no file comes or goes. -/
theorem sameFile_of_makeDirectory {made : Folder} (h : folder.makeDirectory path = .ok made) :
    folder.SameFile made place := by
  obtain ⟨new, hmissing, rfl⟩ := exists_of_makeDirectory h
  intro bytes
  by_cases hplace : place = new
  · have hmade : Folder.entry { folder with directories := folder.directories ++ [new] } new =
        .directory := entry_eq_directory.mpr (.inr (by simp))
    rw [hplace, hmade, hmissing]
    simp
  · simp [entry, hplace]

theorem sameFile_ensureDirectory (folder : Folder) (path : Text) :
    folder.SameFile (folder.ensureDirectory path).1 place := by
  rw [ensureDirectory]
  split
  · rename_i made hmade
    exact sameFile_of_makeDirectory hmade
  · exact fun _ => Iff.rfl
  · exact fun _ => Iff.rfl

private theorem sameFile_makeAll (folder : Folder) (path : Text) (rounds : Nat) :
    folder.SameFile (folder.makeAll path rounds).1 place := by
  induction rounds generalizing path with
  | zero => exact fun _ => Iff.rfl
  | succ rounds ih =>
      rw [makeAll]
      dsimp only
      have hheld := ih (splitLast path).1
      have hlast {made : Folder} {outcome : Outcome Unit}
          (h : folder.makeAll (splitLast path).1 rounds = (made, outcome)) :
          folder.SameFile
            (if (splitLast path).2 = ['.'] then (made, Except.ok ())
              else made.ensureDirectory path).1 place := by
        rw [h] at hheld
        split
        · exact hheld
        · exact hheld.trans (sameFile_ensureDirectory made path)
      split
      · exact sameFile_ensureDirectory folder path
      · split
        · exact hlast ‹_›
        · exact hlast ‹_›
        · exact hheld

theorem sameFile_makeDirectories (folder : Folder) (path : Text) :
    folder.SameFile (folder.makeDirectories path).1 place :=
  sameFile_makeAll folder path _

end ProcCatalog.Storage.Folder
