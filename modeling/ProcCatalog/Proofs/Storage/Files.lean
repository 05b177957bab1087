import ProcCatalog.Proofs.Outcome
import ProcCatalog.Proofs.Text.Parts
import ProcCatalog.Storage.Folder

/-!
# Files of a folder

Where a path leads depends on the directories of a folder alone. Writing a file therefore neither
opens nor bars any other path.
-/

namespace ProcCatalog.Storage

/-! ## Paths and names -/

/-- A name that a file can have in a directory. -/
structure FileName (name : Text) : Prop where
  noSlash : '/' ∉ name
  ne_nil : name ≠ []
  ne_dot : name ≠ ['.']
  ne_dots : name ≠ ['.', '.']

/-- Whatever is joined to a directory stands behind the same text, which ends in a slash unless
there is none of it. -/
private theorem joinPath_eq (directory : Text) :
    ∃ front, (front = [] ∨ ∃ s, front = s ++ ['/']) ∧
      ∀ name, joinPath directory name = front ++ name := by
  by_cases h : directory.isEmpty ∨ directory.getLast? = some '/'
  · refine ⟨directory, ?_, fun name => by rw [joinPath, if_pos h]⟩
    rcases h with h | h
    · exact .inl (List.isEmpty_iff.mp h)
    · exact .inr (List.getLast?_eq_some_iff.mp h)
  · refine ⟨directory ++ ['/'], .inr ⟨directory, rfl⟩, fun name => ?_⟩
    rw [joinPath, if_neg h, List.append_assoc, List.singleton_append]

theorem joinPath_inj {directory name name' : Text} :
    joinPath directory name = joinPath directory name' ↔ name = name' := by
  obtain ⟨front, -, hfront⟩ := joinPath_eq directory
  rw [hfront, hfront, List.append_cancel_left_eq]

theorem joinPath_joinPath (directory : Text) {name : Text} (h : FileName name) (name' : Text) :
    joinPath (joinPath directory name) name' = joinPath directory (name ++ '/' :: name') := by
  obtain ⟨front, -, hfront⟩ := joinPath_eq directory
  have hno : ¬((front ++ name).isEmpty ∨ (front ++ name).getLast? = some '/') := by
    rintro (hempty | hlast)
    · simp [h.ne_nil] at hempty
    · rw [List.getLast?_append_of_ne_nil _ h.ne_nil] at hlast
      exact h.noSlash (List.mem_of_getLast? hlast)
  rw [hfront, hfront, joinPath, if_neg hno, List.append_assoc]

namespace Folder

variable {folder other : Folder} {place : Path} {path : Text} {bytes : Bytes}

/-! ## What stands at a place -/

theorem entry_eq_directory :
    folder.entry place = .directory ↔ isTop place = true ∨ place ∈ folder.directories := by
  rw [entry]
  split
  · rename_i h
    simpa using h
  · rename_i h
    have h : ¬(isTop place = true ∨ place ∈ folder.directories) := by simpa using h
    simp only [h, iff_false]
    split <;> simp

theorem isTop_append_name (base : Path) {name : Text} (h : FileName name) :
    isTop (base ++ [name]) = false := by
  simp [isTop, List.all_append, h.ne_dots, List.append_eq_singleton_iff, h.ne_nil]

theorem holder_append_name (base : Path) {name : Text} (h : FileName name) :
    holder (base ++ [name]) = base := by
  have hne : base ++ [name] ≠ [[]] := by
    simp [List.append_eq_singleton_iff, h.ne_nil]
  rw [holder, if_neg hne, isTop_append_name base h]
  simp

/-! ## Where a path leads -/

/-- Two folders with the same directories are walked alike. -/
theorem walk_eq_ok_congr (h : folder.directories = other.directories) (parts : List Text)
    (start : Path) : folder.walk start parts = .ok place ↔ other.walk start parts = .ok place := by
  have hentry (p : Path) : folder.entry p = .directory ↔ other.entry p = .directory := by
    rw [entry_eq_directory, entry_eq_directory, h]
  induction parts generalizing start with
  | nil => rfl
  | cons part parts ih =>
      rw [walk, walk]
      cases hf : folder.entry start with
      | directory =>
          rw [(hentry start).mp hf]
          dsimp only
          split
          · exact ih start
          · split
            · exact ih _
            · split
              · simp
              · exact ih _
      | file b =>
          have ho : other.entry start ≠ .directory := fun ho => by
            simp [(hentry start).mpr ho] at hf
          cases hc : other.entry start <;> simp_all
      | missing =>
          have ho : other.entry start ≠ .directory := fun ho => by
            simp [(hentry start).mpr ho] at hf
          cases hc : other.entry start <;> simp_all

theorem resolve_eq_ok_congr (h : folder.directories = other.directories) :
    folder.resolve path = .ok place ↔ other.resolve path = .ok place := by
  rw [resolve, resolve, follow, follow]
  split
  · rfl
  · split
    · rfl
    · split
      · rfl
      · exact walk_eq_ok_congr h _ _

theorem walk_append (start : Path) (front back : List Text) :
    folder.walk start (front ++ back) =
      folder.walk start front >>= fun base => folder.walk base back := by
  induction front generalizing start with
  | nil => rfl
  | cons part front ih =>
      rw [List.cons_append, walk, walk]
      cases folder.entry start with
      | file _ => rfl
      | missing => rfl
      | directory =>
          dsimp only
          split
          · exact ih start
          · split
            · exact ih _
            · split
              · rfl
              · exact ih _

private theorem walk_append_eq_ok {start : Path} {front back : List Text}
    (h : folder.walk start (front ++ back) = .ok place) :
    ∃ base, folder.walk start front = .ok base ∧ folder.walk base back = .ok place := by
  rw [walk_append] at h
  cases hbase : folder.walk start front with
  | error obstacle => simp [hbase, bind, Except.bind] at h
  | ok base => exact ⟨base, rfl, by simpa [hbase, bind, Except.bind] using h⟩

private theorem walk_name_cons {base : Path} {name : Text} (hname : FileName name)
    {parts : List Text} (h : folder.walk base (name :: parts) = .ok place) :
    folder.entry base = .directory ∧ folder.walk (base ++ [name]) parts = .ok place := by
  rw [walk] at h
  cases hbase : folder.entry base with
  | file _ => simp [hbase] at h
  | missing => simp [hbase] at h
  | directory =>
      simp only [hbase, hname.ne_nil, hname.ne_dot, hname.ne_dots, or_self, if_false] at h
      split at h
      · cases h
      · exact ⟨rfl, h⟩

/-- All that is joined to a directory is walked from one base, the place of the directory. -/
private theorem exists_base (folder : Folder) (directory : Text) : ∃ start front,
    ∀ {name : Text}, FileName name → ∀ {rest place},
      folder.resolve (joinPath directory (name ++ rest)) = .ok place →
        ∃ base, folder.walk start front = .ok base ∧
          folder.walk base (Text.partsAt '/' (name ++ rest)) = .ok place := by
  obtain ⟨front, hslash, hfront⟩ := joinPath_eq directory
  have hwalk {path : Text} {place : Path} (h : folder.resolve path = .ok place) :
      folder.walk (origin path) (Text.partsAt '/' path) = .ok place := by
    rw [resolve, follow] at h
    split at h
    · cases h
    · split at h
      · cases h
      · split at h
        · cases h
        · exact h
  rcases hslash with rfl | ⟨s, rfl⟩
  · refine ⟨[], [], fun {name} hname {rest place} h => ⟨[], rfl, ?_⟩⟩
    have horigin : origin (name ++ rest) = [] := by
      obtain ⟨c, name, rfl⟩ := List.exists_cons_of_ne_nil hname.ne_nil
      have hc : c ≠ '/' := fun hc => hname.noSlash (by simp [hc])
      simp [origin, hc]
    rw [hfront, List.nil_append] at h
    simpa only [horigin] using hwalk h
  · refine ⟨origin (s ++ ['/']), Text.partsAt '/' s, fun {name} hname {rest place} h => ?_⟩
    have horigin : origin ((s ++ ['/']) ++ (name ++ rest)) = origin (s ++ ['/']) := by
      cases s <;> simp [origin]
    rw [hfront] at h
    have h := hwalk h
    rw [horigin, List.append_assoc, List.singleton_append, Text.partsAt_append] at h
    exact walk_append_eq_ok h

/-- A file in a directory stands under its name, below a place that is a directory. -/
theorem resolve_joinPath {directory name : Text} (hname : FileName name)
    (h : folder.resolve (joinPath directory name) = .ok place) :
    ∃ base, place = base ++ [name] ∧ folder.entry base = .directory := by
  obtain ⟨start, front, hbase⟩ := exists_base folder directory
  rw [← List.append_nil name] at h
  obtain ⟨base, -, h⟩ := hbase hname h
  rw [List.append_nil, Text.partsAt_eq_singleton hname.noSlash] at h
  obtain ⟨hdirectory, h⟩ := walk_name_cons hname h
  exact ⟨base, (Except.ok.inj h).symm, hdirectory⟩

theorem name_eq_of_resolve {directory directory' name name' : Text} (hname : FileName name)
    (hname' : FileName name') (h : folder.resolve (joinPath directory name) = .ok place)
    (h' : folder.resolve (joinPath directory' name') = .ok place) : name = name' := by
  obtain ⟨base, rfl, -⟩ := resolve_joinPath hname h
  obtain ⟨base', hplace, -⟩ := resolve_joinPath hname' h'
  simpa using congrArg List.getLast? hplace

/-- Two paths that do not lead to one place. -/
def Apart (folder : Folder) (path path' : Text) : Prop :=
  ∀ place, folder.resolve path = .ok place → folder.resolve path' ≠ .ok place

theorem Apart.symm {path' : Text} (h : folder.Apart path path') : folder.Apart path' path :=
  fun place hplace' hplace => h place hplace hplace'

theorem apart_of_ne {directory directory' name name' : Text} (hname : FileName name)
    (hname' : FileName name') (hne : name ≠ name') :
    folder.Apart (joinPath directory name) (joinPath directory' name') :=
  fun _ h h' => hne (name_eq_of_resolve hname hname' h h')

/-- What is in a directory does not stand in a directory of that directory. -/
theorem apart_of_below {directory sub name name' : Text} (hname : FileName name)
    (hsub : FileName sub) (hname' : FileName name') :
    folder.Apart (joinPath directory name) (joinPath (joinPath directory sub) name') := by
  intro place h h'
  obtain ⟨start, front, hbase⟩ := exists_base folder directory
  rw [← List.append_nil name] at h
  obtain ⟨base, hwalk, h⟩ := hbase hname h
  rw [List.append_nil, Text.partsAt_eq_singleton hname.noSlash] at h
  obtain ⟨-, h⟩ := walk_name_cons hname h
  rw [joinPath_joinPath directory hsub] at h'
  obtain ⟨base', hwalk', h'⟩ := hbase hsub h'
  rw [Text.partsAt_append, Text.partsAt_eq_singleton hsub.noSlash,
    Text.partsAt_eq_singleton hname'.noSlash] at h'
  obtain ⟨-, h'⟩ := walk_name_cons hsub h'
  obtain ⟨-, h'⟩ := walk_name_cons hname' h'
  obtain rfl : base = base' := Except.ok.inj (hwalk.symm.trans hwalk')
  simpa using Except.ok.inj (h.trans h'.symm)

/-! ## Writing -/

def withFile (folder : Folder) (place : Path) (bytes : Bytes) : Folder :=
  { folder with files := putFile place bytes folder.files }

/-- A path to a place where no directory stands, so that a file can. -/
def Writable (folder : Folder) (path : Text) : Prop :=
  ∃ place, folder.resolve path = .ok place ∧ folder.entry place ≠ .directory

instance (folder : Folder) (path : Text) : Decidable (folder.Writable path) :=
  match h : folder.resolve path with
  | .ok place => decidable_of_iff (folder.entry place ≠ .directory) (by simp [Writable, h])
  | .error _ => .isFalse (by simp [Writable, h])

theorem writable_congr (h : folder.directories = other.directories) :
    folder.Writable path ↔ other.Writable path := by
  simp only [Writable, resolve_eq_ok_congr h, ne_eq, entry_eq_directory, h]

private theorem lookup_cons_file (place place' : Path) (bytes : Bytes)
    (files : List (Path × Bytes)) :
    ((place, bytes) :: files).lookup place' =
      if place' = place then some bytes else files.lookup place' := by
  by_cases h : place' = place
  · rw [List.lookup_cons, h, if_pos rfl, beq_self_eq_true]
  · rw [List.lookup_cons, if_neg h, beq_eq_false_iff_ne.mpr h]

private theorem lookup_putFile (place place' : Path) (bytes : Bytes)
    (files : List (Path × Bytes)) :
    (putFile place bytes files).lookup place' =
      if place' = place then some bytes else files.lookup place' := by
  induction files with
  | nil => exact lookup_cons_file place place' bytes []
  | cons file files ih =>
      obtain ⟨p, b⟩ := file
      rw [putFile, lookup_cons_file p]
      split
      · rename_i hp
        rw [lookup_cons_file, hp]
        split <;> rfl
      · rename_i hp
        rw [lookup_cons_file, ih]
        by_cases h : place' = p
        · rw [if_pos h, if_neg (h ▸ hp), if_pos h]
        · rw [if_neg h, if_neg h]

theorem entry_withFile (h : folder.entry place ≠ .directory) :
    (folder.withFile place bytes).entry place = .file bytes := by
  have hno : ¬(isTop place = true ∨ place ∈ folder.directories) :=
    fun hplace => h (entry_eq_directory.mpr hplace)
  rw [entry, withFile, lookup_putFile, if_pos rfl, if_neg (by simpa using hno)]

theorem entry_withFile_of_ne {place' : Path} (h : place' ≠ place) :
    (folder.withFile place bytes).entry place' = folder.entry place' := by
  rw [entry, entry, withFile, lookup_putFile, if_neg h]

/-- A file is written under its name wherever no directory bears that name. -/
theorem writeBytes_joinPath {directory name : Text} (hname : FileName name) {written : Folder} :
    folder.writeBytes (joinPath directory name) bytes = .ok written ↔
      ∃ place, folder.resolve (joinPath directory name) = .ok place ∧
        folder.entry place ≠ .directory ∧ written = folder.withFile place bytes := by
  rw [writeBytes]
  cases hplace : folder.resolve (joinPath directory name) with
  | error obstacle => simp
  | ok place =>
      obtain ⟨base, rfl, hbase⟩ := resolve_joinPath hname hplace
      dsimp only
      rw [holder_append_name base hname, hbase]
      cases hentry : folder.entry (base ++ [name]) <;>
        simp [withFile, eq_comm, hentry]

theorem readBytes_eq_ok_iff :
    folder.readBytes path = .ok bytes ↔ folder.entryAt path = .file bytes := by
  rw [readBytes, entryAt]
  cases folder.resolve path with
  | error obstacle => simp
  | ok place =>
      dsimp only
      cases folder.entry place <;> simp

theorem isFile_iff : folder.isFile path = true ↔ ∃ bytes, folder.entryAt path = .file bytes := by
  rw [isFile]
  cases folder.entryAt path <;> simp

theorem isFile_of_readValue {v : Value} (h : folder.readValue path = .ok v) :
    folder.isFile path = true := by
  obtain ⟨s, hs, -⟩ := Outcome.bind_eq_ok.mp h
  obtain ⟨bytes, hbytes, -⟩ := Outcome.bind_eq_ok.mp hs
  exact isFile_iff.mpr ⟨bytes, readBytes_eq_ok_iff.mp hbytes⟩

end Folder

end ProcCatalog.Storage
