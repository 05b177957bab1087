import ProcCatalog.Proofs.Text.Lines
import ProcCatalog.Source

/-!
# A source as a cursor

What a source of a text at hand holds after some steps is told by the steps alone: nothing if it is
closed, the whole text if it was not read since it was opened, and the end of the text otherwise.
So a reading gives all lines once, until the source is closed and opened again.
-/

namespace ProcCatalog.Source

open Storage (Folder)

/-! ## Steps -/

inductive Step where
  | opening
  | closing
  /-- All lines that are left. -/
  | lines
  /-- All lines that are left, in a source that is opened before and closed behind it. -/
  | linesWhileOpen
  deriving DecidableEq, Repr

/-- What a step answers, which is lines if it reads, and the source behind it. -/
def perform (folder : Folder) (source : Source) :
    Step → Outcome (Option (List Text)) × Source
  | .opening =>
    match source.opened folder with
    | .ok s => (.ok none, s)
    | .error fault => (.error fault, source)
  | .closing => (.ok none, source.closed)
  | .lines =>
    let (result, s) := source.readLines
    (result.map some, s)
  | .linesWhileOpen =>
    let (result, s) := source.whileOpen folder readLines
    (result.map some, s)

def after (folder : Folder) (source : Source) (steps : List Step) : Source :=
  steps.foldl (fun s step => (s.perform folder step).2) source

/-! ## What the steps tell -/

/-- Of the steps that open or close, the last is an opening. -/
def EndsOpen (steps : List Step) : Prop :=
  (steps.filter (· ≠ .lines)).getLast? = some .opening

/-- The opening between both parts opened a closed source, which was not closed since. -/
structure OpenedLast (steps before since : List Step) : Prop where
  cut : steps = before ++ .opening :: since
  closed : ¬ EndsOpen before
  keptOpen : ∀ step ∈ since, step = .opening ∨ step = .lines

/-- Something was read since the source was last opened. -/
def HasRead (steps : List Step) : Prop :=
  ∃ before since, OpenedLast steps before since ∧ .lines ∈ since

section

variable {steps before since : List Step}

theorem not_endsOpen_nil : ¬ EndsOpen [] := by simp [EndsOpen]

@[simp] theorem endsOpen_opening : EndsOpen (steps ++ [.opening]) := by simp [EndsOpen]

@[simp] theorem not_endsOpen_closing : ¬ EndsOpen (steps ++ [.closing]) := by simp [EndsOpen]

@[simp] theorem not_endsOpen_linesWhileOpen : ¬ EndsOpen (steps ++ [.linesWhileOpen]) := by
  simp [EndsOpen]

@[simp] theorem endsOpen_lines : EndsOpen (steps ++ [.lines]) ↔ EndsOpen steps := by
  simp [EndsOpen]

theorem OpenedLast.endsOpen (h : OpenedLast steps before since) : EndsOpen steps := by
  obtain ⟨rfl, -, hopen⟩ := h
  induction since using List.reverseRecOn with
  | nil => exact endsOpen_opening
  | append_singleton since step ih =>
      have hbefore := ih fun s hs => hopen s (by simp [hs])
      rw [← List.cons_append, ← List.append_assoc]
      rcases hopen step (by simp) with rfl | rfl
      · exact endsOpen_opening
      · exact endsOpen_lines.mpr hbefore

theorem OpenedLast.push (h : OpenedLast steps before since) {step : Step}
    (hstep : step = .opening ∨ step = .lines) :
    OpenedLast (steps ++ [step]) before (since ++ [step]) := by
  refine ⟨by simp [h.cut], h.closed, fun s hs => ?_⟩
  rcases List.mem_append.mp hs with hs | hs
  · exact h.keptOpen s hs
  · rwa [List.mem_singleton.mp hs]

theorem exists_openedLast (h : EndsOpen steps) : ∃ before since, OpenedLast steps before since := by
  induction steps using List.reverseRecOn with
  | nil => exact absurd h not_endsOpen_nil
  | append_singleton steps step ih =>
      by_cases hopen : EndsOpen steps
      · obtain ⟨before, since, hlast⟩ := ih hopen
        have hstep : step = .opening ∨ step = .lines := by cases step <;> simp_all
        exact ⟨before, since ++ [step], hlast.push hstep⟩
      · obtain rfl : step = .opening := by cases step <;> simp_all
        exact ⟨steps, [], rfl, hopen, by simp⟩

theorem HasRead.endsOpen (h : HasRead steps) : EndsOpen steps := by
  obtain ⟨_, _, hlast, -⟩ := h
  exact hlast.endsOpen

theorem hasRead_lines : HasRead (steps ++ [.lines]) ↔ EndsOpen steps := by
  refine ⟨fun h => endsOpen_lines.mp h.endsOpen, fun h => ?_⟩
  obtain ⟨before, since, hlast⟩ := exists_openedLast h
  exact ⟨before, since ++ [.lines], hlast.push (.inr rfl), by simp⟩

theorem hasRead_opening : HasRead (steps ++ [.opening]) ↔ HasRead steps := by
  constructor
  · rintro ⟨before, since, ⟨hcut, hclosed, hopen⟩, hread⟩
    obtain rfl | ⟨since, step, rfl⟩ := List.eq_nil_or_concat since
    · cases hread
    · rw [List.concat_eq_append, ← List.cons_append, ← List.append_assoc] at hcut
      obtain ⟨rfl, hstep⟩ := List.append_inj' hcut rfl
      obtain rfl : Step.opening = step := by simpa using hstep
      refine ⟨before, since, ⟨rfl, hclosed, fun s hs => hopen s (by simp [hs])⟩, ?_⟩
      simpa using hread
  · rintro ⟨before, since, hlast, hread⟩
    exact ⟨before, since ++ [.opening], hlast.push (.inl rfl), by simp [hread]⟩

end

/-! ## What is left -/

/-- What a source of a text holds behind some steps. -/
inductive Holds (t : Text) (steps : List Step) : Option Handle → Prop
  | closed (h : ¬ EndsOpen steps) : Holds t steps none
  | unread (h : EndsOpen steps) (hread : ¬ HasRead steps) : Holds t steps (some (.text t))
  | exhausted (h : HasRead steps) : Holds t steps (some (.text []))

variable {t : Text} {folder : Folder} {steps : List Step} {source : Source}

/-- A source of a text that some steps led to. -/
structure Stands (t : Text) (steps : List Step) (source : Source) : Prop where
  origin : source.origin = .text t
  holds : Holds t steps source.handle

namespace Stands

theorem start (t name : Text) : Stands t [] (ofText t name) := ⟨rfl, .closed not_endsOpen_nil⟩

theorem perform (h : Stands t steps source) (folder : Folder) (step : Step) :
    Stands t (steps ++ [step]) (source.perform folder step).2 := by
  obtain ⟨origin, name, handle⟩ := source
  obtain ⟨rfl, hholds⟩ := h
  cases hholds with
  | closed hopen =>
      have hread : ¬ HasRead steps := fun h => hopen h.endsOpen
      cases step with
      | opening => exact ⟨rfl, .unread endsOpen_opening (mt hasRead_opening.mp hread)⟩
      | closing => exact ⟨rfl, .closed not_endsOpen_closing⟩
      | lines => exact ⟨rfl, .closed (mt endsOpen_lines.mp hopen)⟩
      | linesWhileOpen => exact ⟨rfl, .closed not_endsOpen_linesWhileOpen⟩
  | unread hopen hread =>
      cases step with
      | opening => exact ⟨rfl, .unread endsOpen_opening (mt hasRead_opening.mp hread)⟩
      | closing => exact ⟨rfl, .closed not_endsOpen_closing⟩
      | lines => exact ⟨rfl, .exhausted (hasRead_lines.mpr hopen)⟩
      | linesWhileOpen => exact ⟨rfl, .closed not_endsOpen_linesWhileOpen⟩
  | exhausted hread =>
      cases step with
      | opening => exact ⟨rfl, .exhausted (hasRead_opening.mpr hread)⟩
      | closing => exact ⟨rfl, .closed not_endsOpen_closing⟩
      | lines => exact ⟨rfl, .exhausted (hasRead_lines.mpr hread.endsOpen)⟩
      | linesWhileOpen => exact ⟨rfl, .closed not_endsOpen_linesWhileOpen⟩

end Stands

theorem stands_after (t name : Text) (folder : Folder) (steps : List Step) :
    Stands t steps ((ofText t name).after folder steps) := by
  induction steps using List.reverseRecOn with
  | nil => exact .start t name
  | append_singleton steps step ih =>
      rw [after, List.foldl_concat]
      exact ih.perform folder step

/-! ## Answers -/

/-- The step reads the source; the other way to read a source fails where it is closed. -/
def Reads (source : Source) (step : Step) : Prop :=
  step = .linesWhileOpen ∨ step = .lines ∧ source.isOpen = true

/-- What the next step does with a source of a text is told by the steps before it. -/
structure Follows (t : Text) (folder : Folder) (steps : List Step) (source : Source) : Prop where
  isOpen_iff : source.isOpen = true ↔ EndsOpen steps
  opening : (source.perform folder .opening).1 = .ok none
  closing : (source.perform folder .closing).1 = .ok none
  fails_iff : (source.perform folder .lines).1 = .error .notOpen ↔ source.isOpen = false
  unchanged : source.isOpen = false → (source.perform folder .lines).2 = source
  all : ∀ step, Reads source step → ¬ HasRead steps →
    (source.perform folder step).1 = .ok (some (Text.fileLines t))
  none : ∀ step, Reads source step → HasRead steps → (source.perform folder step).1 = .ok (some [])

theorem Stands.follows (h : Stands t steps source) (folder : Folder) :
    Follows t folder steps source := by
  obtain ⟨origin, name, handle⟩ := source
  obtain ⟨rfl, hholds⟩ := h
  cases hholds with
  | closed hopen =>
      have hread : ¬ HasRead steps := fun h => hopen h.endsOpen
      refine ⟨iff_of_false Bool.false_ne_true hopen, rfl, rfl, iff_of_true rfl rfl, fun _ => rfl,
        ?_, fun _ _ h => absurd h hread⟩
      rintro step (rfl | ⟨-, hclosed⟩) -
      · rfl
      · cases hclosed
  | unread hopen hread =>
      refine ⟨iff_of_true rfl hopen, rfl, rfl, iff_of_false nofun nofun, nofun, ?_,
        fun _ _ h => absurd h hread⟩
      rintro step (rfl | ⟨rfl, -⟩) - <;> rfl
  | exhausted hread =>
      refine ⟨iff_of_true rfl hread.endsOpen, rfl, rfl, iff_of_false nofun nofun, nofun,
        fun _ _ h => absurd hread h, ?_⟩
      rintro step (rfl | ⟨rfl, -⟩) - <;> rfl

/-- Whatever steps a source of a text went through, they tell what the next one does, and the lines
that it reads are the text, cut behind its breaks. -/
theorem follows_after (t name : Text) (folder : Folder) (steps : List Step) :
    Follows t folder steps ((ofText t name).after folder steps) ∧
      Text.FileCut t (Text.fileLines t) :=
  ⟨(stands_after t name folder steps).follows folder, Text.fileCut_fileLines t⟩

example :
    ((ofText "a\r\nb\rc".toList).perform {} .linesWhileOpen).1 =
      .ok (some ["a\r\n".toList, "b\r".toList, "c".toList]) := by
  decide

end ProcCatalog.Source
