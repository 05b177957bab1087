import ProcCatalog.Text.Basic
import Mathlib

/-!
# Parts of a text

Cutting a text at a character and joining the parts with it undo each other, if no part holds the
character. What follows the last such character is the same whatever stands in front of one.
-/

namespace ProcCatalog.Text

variable {c : Char} {s t : Text}

theorem partsAt_ne_nil (c : Char) (s : Text) : partsAt c s ≠ [] := by
  cases s with
  | nil => simp [partsAt]
  | cons d s =>
      rw [partsAt]
      split
      · simp
      · split <;> simp

theorem partsAt_eq_singleton (h : c ∉ s) : partsAt c s = [s] := by
  induction s with
  | nil => rfl
  | cons d s ih =>
      have hd : d ≠ c := fun hd => h (by simp [hd])
      have hs : c ∉ s := fun hs => h (List.mem_cons_of_mem _ hs)
      simp [partsAt, hd, ih hs]

theorem partsAt_append (c : Char) (s t : Text) :
    partsAt c (s ++ c :: t) = partsAt c s ++ partsAt c t := by
  induction s with
  | nil => simp [partsAt]
  | cons d s ih =>
      by_cases hd : d = c
      · simp [partsAt, hd, ih]
      · obtain ⟨part, parts, hs⟩ := List.exists_cons_of_ne_nil (partsAt_ne_nil c s)
        simp [partsAt, hd, ih, hs]

theorem flatten_partsAt (c : Char) (s : Text) : (partsAt c s).flatten = s.filter (· != c) := by
  induction s with
  | nil => rfl
  | cons d s ih =>
      by_cases hd : d = c
      · simp [partsAt, hd, ih]
      · obtain ⟨part, parts, hs⟩ := List.exists_cons_of_ne_nil (partsAt_ne_nil c s)
        simpa [partsAt, hd, hs] using ih

theorem joinWith_cons_cons (separator part next : Text) (parts : List Text) :
    joinWith separator (part :: next :: parts) =
      part ++ (separator ++ joinWith separator (next :: parts)) := by
  simp [joinWith]

theorem partsAt_joinWith {part : Text} {parts : List Text} (h : ∀ p ∈ part :: parts, c ∉ p) :
    partsAt c (joinWith [c] (part :: parts)) = part :: parts := by
  induction parts generalizing part with
  | nil =>
      rw [joinWith, List.intercalate_singleton]
      exact partsAt_eq_singleton (h part (by simp))
  | cons next parts ih =>
      obtain ⟨hpart, hparts⟩ := List.forall_mem_cons.mp h
      rw [joinWith_cons_cons, List.singleton_append, partsAt_append, partsAt_eq_singleton hpart,
        ih hparts]
      rfl

/-! ## Behind the last one -/

section Last

variable {α : Type} [BEq α] [LawfulBEq α]

theorem afterLast_append (x : α) (s t : List α) :
    afterLast x (s ++ x :: t) = afterLast x t := by
  rw [afterLast, List.reverse_append, List.reverse_cons, List.append_assoc, List.takeWhile_append]
  split
  · rename_i hall
    rw [List.singleton_append, List.takeWhile_cons_of_neg (by simp), List.append_nil, afterLast,
      (List.takeWhile_prefix _).eq_of_length hall]
  · rfl

theorem not_mem_afterLast (x : α) (s : List α) : x ∉ afterLast x s := by
  intro h
  simpa using List.mem_takeWhile_imp (List.mem_reverse.mp h)

theorem afterLast_eq_self {x : α} {s : List α} (h : x ∉ s) : afterLast x s = s := by
  rw [afterLast, List.takeWhile_eq_self_iff.mpr, List.reverse_reverse]
  intro y hy
  rw [bne_iff_ne]
  rintro rfl
  exact h (List.mem_reverse.mp hy)

end Last

end ProcCatalog.Text
