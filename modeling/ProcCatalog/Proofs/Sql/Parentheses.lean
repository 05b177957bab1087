import ProcCatalog.Proofs.Text.Exchange
import ProcCatalog.Sql.TopLevel
import Mathlib

/-!
# The closing parenthesis

The walk to a closing parenthesis sees of the text behind it only whether a right bracket stands
there.
-/

namespace ProcCatalog.Sql

variable {region : Region} {depth : Int} {index j : Nat} {s t t' : Text}

theorem le_of_closingFrom (h : closingFrom region depth index s = some j) : index ≤ j := by
  induction s generalizing region depth index with
  | nil => simp [closingFrom] at h
  | cons c s ih =>
      rw [closingFrom] at h
      split at h
      · exact (Option.some.inj h).le
      · exact Nat.le_of_succ_le (ih h)

theorem closingFrom_add (k : Nat) :
    closingFrom region depth (index + k) s = (closingFrom region depth index s).map (· + k) := by
  induction s generalizing region depth index with
  | nil => rfl
  | cons c s ih =>
      rw [closingFrom, closingFrom]
      split
      · rfl
      · rw [← ih, Nat.add_right_comm]

theorem Region.next_congr {s' : Text} (h : ']' ∈ s ↔ ']' ∈ s') (c : Char) :
    region.next c s = region.next c s' := by
  cases region <;> simp [Region.next, h]

theorem closingFrom_append (ht : ']' ∈ t ↔ ']' ∈ t') (hj : j < index + s.length)
    (h : closingFrom region depth index (s ++ t) = some j) :
    closingFrom region depth index (s ++ t') = some j := by
  induction s generalizing region depth index with
  | nil =>
      have := le_of_closingFrom h
      rw [List.length_nil] at hj
      omega
  | cons c s ih =>
      have hnext : region.next c (s ++ t) = region.next c (s ++ t') :=
        Region.next_congr (by simp [ht]) c
      rw [List.cons_append, closingFrom] at h ⊢
      rw [← hnext]
      split at h
      · rename_i hclosed
        rwa [if_pos hclosed]
      · rename_i hopen
        rw [if_neg hopen]
        exact ih (by rw [List.length_cons] at hj; omega) h

/-! ## Exchanged characters -/

/-- The characters that have a meaning for the walk stay what they are. -/
def keepsMarks (e : Text.Exchange) : Bool :=
  [quoteMark, '[', ']', '(', ')'].all fun mark => e.likens (· == mark)

variable {e : Text.Exchange}

private theorem likens_mark (he : keepsMarks e = true) (mark : Char)
    (h : mark ∈ [quoteMark, '[', ']', '(', ')']) : e.likens (· == mark) = true :=
  List.all_eq_true.mp he mark h

theorem Region.next_exchanged (he : keepsMarks e = true) (c : Char) (s : Text) :
    region.next (e.apply c) (s.map e.apply) = region.next c s := by
  have hquote := e.apply_eq_iff (likens_mark he quoteMark (by simp)) c
  have hopen := e.apply_eq_iff (likens_mark he '[' (by simp)) c
  have hclose := e.apply_eq_iff (likens_mark he ']' (by simp)) c
  have hbehind : ']' ∈ s.map e.apply ↔ ']' ∈ s := e.mem_map_iff (likens_mark he ']' (by simp))
  cases region <;> simp only [Region.next, hquote, hopen, hclose, hbehind]

theorem closingFrom_exchanged (he : keepsMarks e = true) (s : Text) :
    closingFrom region depth index (s.map e.apply) = closingFrom region depth index s := by
  induction s generalizing region depth index with
  | nil => rfl
  | cons c s ih =>
      have hopen := e.apply_eq_iff (likens_mark he '(' (by simp)) c
      have hclose := e.apply_eq_iff (likens_mark he ')' (by simp)) c
      simp only [List.map_cons, closingFrom, Region.next_exchanged he, hopen, hclose, ih]

theorem closingParen?_exchanged (he : keepsMarks e = true) (s : Text) (start : Nat) :
    closingParen? (s.map e.apply) start = closingParen? s start := by
  rw [closingParen?, closingParen?, ← List.map_drop, closingFrom_exchanged he]

end ProcCatalog.Sql
