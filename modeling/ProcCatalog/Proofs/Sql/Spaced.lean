import ProcCatalog.Proofs.Sql.CommentFree
import ProcCatalog.Proofs.Sql.Parentheses
import ProcCatalog.Proofs.Text.Spaced

/-!
# Comments, parentheses and pieces of texts with spaces for carriage returns

No mark, separator or parenthesis is a space or a carriage return, so comments are removed and lists
are split at the same places, whichever of the two stands in the text.
-/

namespace ProcCatalog.Sql

open Text

/-! ## Comments -/

private theorem spaced_ne_mark {c x mark : Char} {r : Text} (hx : x ≠ '\r' ∧ x ≠ ' ')
    (hmark : mark ≠ '\r' ∧ mark ≠ ' ') (hopen : ∀ u, c = x → r = mark :: u → False) :
    ∀ u, toSpace c = x → spaced r ≠ mark :: u := by
  intro u hc hr
  have hhead : r.head? = some mark :=
    (head?_spaced_eq_some_iff hmark.1 hmark.2).mp (by rw [hr]; rfl)
  obtain ⟨v, hv⟩ := List.head?_eq_some_iff.mp hhead
  exact hopen v ((toSpace_eq_iff hx.1 hx.2).mp hc) hv

theorem afterClosing?_spaced (s : Text) :
    afterClosing? (spaced s) = (afterClosing? s).map spaced := by
  fun_induction afterClosing? s with
  | case1 => rfl
  | case2 s => rfl
  | case3 c s hopen ih =>
      rw [spaced_cons, afterClosing?_cons (spaced_ne_mark (by decide) (by decide) hopen), ih]

theorem dropBlockComments_spaced (s : Text) :
    dropBlockComments (spaced s) = spaced (dropBlockComments s) := by
  fun_induction dropBlockComments s with
  | case1 => rw [spaced_nil, dropBlockComments]
  | case2 r t hclosed _ ih =>
      have hclosed' : afterClosing? (spaced r) = some (spaced t) := by
        rw [afterClosing?_spaced, hclosed]
        rfl
      exact (dropBlockComments_closed hclosed').trans (congrArg (' ' :: ·) ih)
  | case3 r hclosed ih =>
      have hclosed' : afterClosing? (spaced r) = none := by
        rw [afterClosing?_spaced, hclosed]
        rfl
      exact (dropBlockComments_unclosed hclosed').trans (congrArg ('/' :: ·) ih)
  | case4 c r hopen ih =>
      rw [spaced_cons, dropBlockComments_cons (spaced_ne_mark (by decide) (by decide) hopen), ih]
      rfl

theorem dropLineComments_spaced (s : Text) :
    dropLineComments (spaced s) = spaced (dropLineComments s) := by
  fun_induction dropLineComments s with
  | case1 => rw [spaced_nil, dropLineComments_nil]
  | case2 r _ ih =>
      rw [← ih, ← dropWhile_spaced rfl]
      exact dropLineComments_open (spaced r)
  | case3 c r hopen ih =>
      rw [spaced_cons, dropLineComments_cons (spaced_ne_mark (by decide) (by decide) hopen), ih]
      rfl

theorem stripComments_spaced (s : Text) : stripComments (spaced s) = spaced (stripComments s) := by
  rw [stripComments, dropBlockComments_spaced, dropLineComments_spaced]
  rfl

/-! ## Enclosing parentheses -/

theorem closesEarly_spaced (s : Text) (depth : Nat) :
    closesEarly depth (spaced s) = closesEarly depth s := by
  induction s generalizing depth with
  | nil => rfl
  | cons c s ih =>
      have hopen : toSpace c = '(' ↔ c = '(' := toSpace_eq_iff (by decide) (by decide)
      have hclose : toSpace c = ')' ↔ c = ')' := toSpace_eq_iff (by decide) (by decide)
      simp only [spaced_cons, closesEarly, hopen, hclose, ih, isEmpty_spaced]

theorem unwrapParens_spaced (s : Text) : unwrapParens (spaced s) = spaced (unwrapParens s) := by
  have hhead : (spaced (trim s)).head? = some '(' ↔ (trim s).head? = some '(' :=
    head?_spaced_eq_some_iff (by decide) (by decide)
  have hlast : (spaced (trim s)).getLast? = some ')' ↔ (trim s).getLast? = some ')' :=
    getLast?_spaced_eq_some_iff (by decide) (by decide)
  have hinside : ((spaced (trim s)).drop 1).dropLast = spaced ((trim s).drop 1).dropLast := by
    simp only [spaced, List.map_drop, List.map_dropLast]
  simp only [unwrapParens, trim_spaced, hhead, hlast, closesEarly_spaced, hinside]
  split <;> rfl

/-! ## Pieces -/

section

variable (region : Region) (depth : Nat) (c : Char) (s : Text)

private theorem separates_toSpace :
    separates [','] region depth (toSpace c) = separates [','] region depth c := by
  by_cases h : c = '\r'
  · subst h
    simp [separates, toSpace_return]
  · rw [toSpace_of_ne h]

private theorem next_spaced : region.next (toSpace c) (spaced s) = region.next c s :=
  Region.next_exchanged (e := spacing) rfl c s

private theorem deepen_toSpace : deepen depth (toSpace c) = deepen depth c := by
  have hopen : toSpace c = '(' ↔ c = '(' := toSpace_eq_iff (by decide) (by decide)
  have hclose : toSpace c = ')' ↔ c = ')' := toSpace_eq_iff (by decide) (by decide)
  simp only [deepen, hopen, hclose]

private theorem piecesFrom_spaced (piece : Text) :
    piecesFrom [','] region depth (spaced piece) (spaced s) =
      (piecesFrom [','] region depth piece s).map spaced := by
  have hreverse (piece : Text) : (spaced piece).reverse = spaced piece.reverse :=
    List.map_reverse.symm
  induction s generalizing region depth piece with
  | nil => exact congrArg ([·]) (hreverse piece)
  | cons c s ih =>
      rw [spaced_cons, piecesFrom, piecesFrom, separates_toSpace, next_spaced, deepen_toSpace,
        hreverse]
      split
      · exact congrArg (spaced piece.reverse :: ·) (ih _ _ [])
      · exact ih _ _ (c :: piece)

end

theorem splitTopLevel_spaced (s : Text) :
    splitTopLevel [','] (spaced s) = (splitTopLevel [','] s).map spaced := by
  have hpieces := piecesFrom_spaced .code 0 s []
  have htrim : trim ∘ spaced = spaced ∘ trim := funext trim_spaced
  have hempty : (fun t : Text => !t.isEmpty) ∘ spaced = fun t => !t.isEmpty :=
    funext fun t => congrArg not (isEmpty_spaced t)
  rw [spaced_nil] at hpieces
  rw [splitTopLevel, splitTopLevel, hpieces, List.map_map, htrim, ← List.map_map, List.filter_map,
    hempty]

end ProcCatalog.Sql
