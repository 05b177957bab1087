import ProcCatalog.Proofs.Text.Exchange
import ProcCatalog.Proofs.Text.Returns
import ProcCatalog.Text.Blank

/-!
# Spaces in place of carriage returns

Trimming and collapsing take a carriage return for a space.
-/

namespace ProcCatalog.Text

def toSpace (c : Char) : Char := if c = '\r' then ' ' else c

def spaced (s : Text) : Text := s.map toSpace

/-! ## Characters -/

theorem toSpace_return : toSpace '\r' = ' ' := rfl

theorem toSpace_of_ne {c : Char} (h : c ≠ '\r') : toSpace c = c := if_neg h

theorem toSpace_ne_return (c : Char) : toSpace c ≠ '\r' := by
  rw [toSpace]
  split
  · decide
  · assumption

theorem toSpace_eq_iff {c d : Char} (hreturn : d ≠ '\r') (hspace : d ≠ ' ') :
    toSpace c = d ↔ c = d := by
  by_cases h : c = '\r'
  · subst h
    rw [toSpace_return]
    exact ⟨fun hd => absurd hd.symm hspace, fun hd => absurd hd.symm hreturn⟩
  · rw [toSpace_of_ne h]

/-- The class tells a carriage return and a space alike. -/
def likens (accepts : Char → Bool) : Bool := accepts '\r' == accepts ' '

theorem accepts_toSpace {accepts : Char → Bool} (h : likens accepts = true) (c : Char) :
    accepts (toSpace c) = accepts c := by
  by_cases hreturn : c = '\r'
  · subst hreturn
    exact (beq_iff_eq.mp h).symm
  · rw [toSpace_of_ne hreturn]

def spacing : Exchange where
  apply := toSpace
  likens := likens
  accepts_apply := accepts_toSpace
  likens_isWord := rfl
  likens_feed := rfl

theorem isBlank_toSpace (c : Char) : isBlank (toSpace c) = isBlank c := accepts_toSpace rfl c

theorem map_toSpace_eq_some_iff {o : Option Char} {d : Char} (hreturn : d ≠ '\r')
    (hspace : d ≠ ' ') : o.map toSpace = some d ↔ o = some d := by
  simp [Option.map_eq_some_iff, toSpace_eq_iff hreturn hspace]

/-! ## Texts -/

@[simp] theorem spaced_nil : spaced [] = [] := rfl

@[simp] theorem spaced_cons (c : Char) (s : Text) : spaced (c :: s) = toSpace c :: spaced s := rfl

@[simp] theorem spaced_append (s t : Text) : spaced (s ++ t) = spaced s ++ spaced t :=
  List.map_append

@[simp] theorem isEmpty_spaced (s : Text) : (spaced s).isEmpty = s.isEmpty := List.isEmpty_map ..

theorem return_not_mem_spaced (s : Text) : '\r' ∉ spaced s := by
  intro h
  obtain ⟨c, -, hc⟩ := List.mem_map.mp h
  exact toSpace_ne_return c hc

theorem spaced_eq_self {s : Text} (h : '\r' ∉ s) : spaced s = s := by
  refine (List.map_congr_left fun c hc => toSpace_of_ne ?_).trans (List.map_id s)
  rintro rfl
  exact h hc

section

variable {d : Char} (hreturn : d ≠ '\r') (hspace : d ≠ ' ') {s : Text}
include hreturn hspace

theorem head?_spaced_eq_some_iff : (spaced s).head? = some d ↔ s.head? = some d := by
  rw [spaced, List.head?_map, map_toSpace_eq_some_iff hreturn hspace]

theorem getLast?_spaced_eq_some_iff : (spaced s).getLast? = some d ↔ s.getLast? = some d := by
  rw [spaced, List.getLast?_map, map_toSpace_eq_some_iff hreturn hspace]

end

/-! ## Trimming and collapsing -/

theorem dropWhile_spaced {drop : Char → Bool} (h : likens drop = true) (s : Text) :
    (spaced s).dropWhile drop = spaced (s.dropWhile drop) :=
  spacing.dropWhile_map h s

theorem trim_spaced (s : Text) : trim (spaced s) = spaced (trim s) := spacing.trimWith_map rfl s

private theorem collapse_go_spaced (s : Text) (inRun : Bool) :
    collapse.go inRun (spaced s) = collapse.go inRun s := by
  induction s generalizing inRun with
  | nil => rfl
  | cons c s ih =>
      rw [spaced_cons, collapse.go, collapse.go, isBlank_toSpace, ih, ih]
      split
      · rfl
      · rename_i hblank
        rw [toSpace_of_ne]
        rintro rfl
        exact hblank rfl

theorem collapse_spaced (s : Text) : collapse (spaced s) = collapse s := by
  rw [collapse, collapse, collapse_go_spaced]

/-! ## Ends of lines -/

/-- The text without the spaces and the carriage returns at the ends of its lines; a carriage
return elsewhere is read as a space. -/
def flush : Text → Text
  | [] => []
  | c :: s =>
    if toSpace c = ' ' ∧ (flush s).head? = some '\n' then flush s else toSpace c :: flush s

theorem flush_spaced (s : Text) : flush (spaced s) = flush s := by
  induction s with
  | nil => rfl
  | cons c s ih => rw [spaced_cons, flush, flush, ih, toSpace_of_ne (toSpace_ne_return c)]

theorem Returned.flush_eq {s s' : Text} (h : Returned s s') : flush s' = flush s := by
  induction h with
  | nil => rfl
  | feed _ ih => simp [flush, ih, toSpace]
  | char _ _ ih => rw [flush, flush, ih]

end ProcCatalog.Text
