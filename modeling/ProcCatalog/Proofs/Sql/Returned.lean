import ProcCatalog.Proofs.Pattern.Returns
import ProcCatalog.Proofs.Sql.CommentFree
import ProcCatalog.Proofs.Sql.Parentheses

/-!
# Comments, parentheses and pieces of texts with carriage returns

A line comment ends with the carriage return of its line, so the lines it stood in lose theirs.
Everything else is kept as it is: a carriage return is no mark, no separator and no parenthesis.
-/

namespace ProcCatalog.Sql

open Text

variable {s s' : Text}

/-! ## Comments -/

theorem rel_afterClosing? (h : Returned s s') :
    Option.Rel Returned (afterClosing? s) (afterClosing? s') := by
  induction h with
  | nil => exact .none
  | feed _ ih =>
      rw [afterClosing?_cons (by simp), afterClosing?_cons (by simp), afterClosing?_cons (by simp)]
      exact ih
  | @char c r r' _ h ih =>
      by_cases hclosing : c = '*' ∧ ∃ u, r = '/' :: u
      · obtain ⟨rfl, u, rfl⟩ := hclosing
        obtain ⟨u', rfl, hu⟩ := h.exists_cons (by decide)
        exact .some hu
      · have hopen : ∀ u, c = '*' → r ≠ '/' :: u := fun u hc hr => hclosing ⟨hc, u, hr⟩
        have hopen' : ∀ u, c = '*' → r' ≠ '/' :: u := by
          rintro u hc rfl
          obtain ⟨t, ht, -⟩ := h.exists_cons' (by decide)
          exact hopen t hc ht
        rw [afterClosing?_cons hopen, afterClosing?_cons hopen']
        exact ih

private theorem not_opens {c mark : Char} {r r' : Text} (hmark : mark ≠ '\r') {x : Char}
    (h : Returned r r') (hopen : ∀ u, c = x → r = mark :: u → False) :
    ∀ u, c = x → r' ≠ mark :: u := by
  rintro u hc rfl
  obtain ⟨t, ht, -⟩ := h.exists_cons' hmark
  exact hopen t hc ht

theorem returned_dropBlockComments (h : Returned s s') :
    Returned (dropBlockComments s) (dropBlockComments s') := by
  fun_induction dropBlockComments s generalizing s' with
  | case1 =>
      cases h
      rw [dropBlockComments]
      exact .nil
  | case2 r t hclosed _ ih =>
      obtain ⟨s', rfl, hmark⟩ := h.exists_cons (by decide)
      obtain ⟨r', rfl, hr⟩ := hmark.exists_cons (by decide)
      have hrel := rel_afterClosing? hr
      rw [hclosed] at hrel
      generalize hclosed' : afterClosing? r' = x at hrel
      cases hrel with
      | some ht =>
          rw [dropBlockComments_closed hclosed']
          exact .char (by decide) (ih ht)
  | case3 r hclosed ih =>
      obtain ⟨s', rfl, hmark⟩ := h.exists_cons (by decide)
      obtain ⟨r', rfl, hr⟩ := hmark.exists_cons (by decide)
      have hclosed' := eq_none_of_rel (hclosed ▸ rel_afterClosing? hr)
      rw [dropBlockComments_unclosed hclosed']
      exact .char (by decide) (ih hmark)
  | case4 c r hopen ih =>
      cases h with
      | feed h =>
          rw [dropBlockComments_cons (by simp), dropBlockComments_cons (by simp)]
          exact .feed (ih h)
      | char hc h =>
          rw [dropBlockComments_cons (not_opens (by decide) h hopen)]
          exact .char hc (ih h)

theorem returned_dropLineComments (h : Returned s s') :
    Returned (dropLineComments s) (dropLineComments s') := by
  fun_induction dropLineComments s generalizing s' with
  | case1 =>
      cases h
      rw [dropLineComments]
      exact .nil
  | case2 r _ ih =>
      obtain ⟨s', rfl, hmark⟩ := h.exists_cons (by decide)
      obtain ⟨r', rfl, hr⟩ := hmark.exists_cons (by decide)
      rw [dropLineComments_open]
      exact ih hr.dropWhile_notFeed
  | case3 c r hopen ih =>
      cases h with
      | feed h =>
          rw [dropLineComments_cons (by simp), dropLineComments_cons (by simp)]
          exact .feed (ih h)
      | char hc h =>
          rw [dropLineComments_cons (not_opens (by decide) h hopen)]
          exact .char hc (ih h)

theorem returned_stripComments (h : Returned s s') :
    Returned (stripComments s) (stripComments s') :=
  returned_dropLineComments (returned_dropBlockComments h)

/-! ## Enclosing parentheses -/

theorem closesEarly_eq (h : Returned s s') (depth : Nat) :
    closesEarly depth s' = closesEarly depth s := by
  induction h generalizing depth with
  | nil => rfl
  | feed _ ih => simp [closesEarly, ih]
  | char _ h ih => rw [closesEarly, closesEarly, ih, ih, ih, h.isEmpty_eq]

theorem returned_unwrapParens (h : Returned s s') :
    Returned (unwrapParens s) (unwrapParens s') := by
  have ht := h.trim
  rw [unwrapParens, unwrapParens]
  generalize Text.trim s = t at ht
  generalize Text.trim s' = t' at ht
  simp only [ht.head?_eq_some_iff (show '(' ≠ '\n' by decide) (by decide), ht.getLast?_eq,
    closesEarly_eq ht]
  split
  · rename_i hwrapped
    simp only [Bool.and_eq_true, decide_eq_true_eq] at hwrapped
    obtain ⟨m, rfl⟩ : ∃ m, t = '(' :: m := by
      cases t with
      | nil => simp at hwrapped
      | cons x m =>
          obtain rfl : x = '(' := by simpa using hwrapped.1.1
          exact ⟨m, rfl⟩
    obtain ⟨m', rfl, hm⟩ := ht.exists_cons (by decide)
    refine (hm.dropLast fun hlast => ?_).trim
    have hclose := hwrapped.1.2
    rw [List.getLast?_cons, hlast] at hclose
    exact absurd hclose (by decide)
  · exact ht

/-! ## Pieces -/

theorem Region.next_eq (h : Returned s s') (region : Region) (c : Char) :
    region.next c s' = region.next c s :=
  Region.next_congr (h.mem_iff (by decide)) c

private theorem piecesFrom_break {c : Char} (hc : c = '\r' ∨ c = '\n') (region : Region)
    (depth : Nat) (piece s : Text) :
    piecesFrom [','] region depth piece (c :: s) =
      piecesFrom [','] region depth (c :: piece) s := by
  rcases hc with rfl | rfl <;> cases region <;>
    simp [piecesFrom, separates, Region.next, deepen, quoteMark]

private theorem forall₂_piecesFrom (h : Returned s s') (region : Region) (depth : Nat)
    {piece piece' : Text} (hpiece : Returned piece.reverse piece'.reverse) :
    List.Forall₂ Returned (piecesFrom [','] region depth piece s)
      (piecesFrom [','] region depth piece' s') := by
  induction h generalizing region depth piece piece' with
  | nil => exact .cons hpiece .nil
  | feed h ih =>
      rw [piecesFrom_break (.inr rfl), piecesFrom_break (.inl rfl), piecesFrom_break (.inr rfl)]
      exact ih _ _ (by simpa using hpiece.append (.feed .nil))
  | @char c s s' hc h ih =>
      have hpush : Returned (c :: piece).reverse (c :: piece').reverse := by
        simpa using hpiece.append (.char hc .nil)
      rw [piecesFrom, piecesFrom, Region.next_eq h]
      split
      · exact .cons hpiece (ih _ _ .nil)
      · exact ih _ _ hpush

theorem forall₂_splitTopLevel (h : Returned s s') :
    List.Forall₂ Returned (splitTopLevel [','] s) (splitTopLevel [','] s') := by
  have hpieces : List.Forall₂ Returned (piecesFrom [','] .code 0 [] s)
      (piecesFrom [','] .code 0 [] s') := forall₂_piecesFrom h .code 0 .nil
  rw [splitTopLevel, splitTopLevel]
  generalize piecesFrom [','] .code 0 [] s = ps at hpieces
  generalize piecesFrom [','] .code 0 [] s' = ps' at hpieces
  induction hpieces with
  | nil => exact .nil
  | cons hpiece _ ih =>
      have htrim := hpiece.trim
      rw [List.map_cons, List.map_cons, List.filter_cons, List.filter_cons, htrim.isEmpty_eq]
      split
      · exact .cons htrim ih
      · exact ih

/-! ## The closing parenthesis -/

/-- The places of a character in both texts. -/
structure PlacedAlike (s s' : Text) (i i' : Nat) : Prop where
  front : Returned (s.take i) (s'.take i')
  back : Returned (s.drop i) (s'.drop i')

private theorem closingFrom_break {c : Char} (hc : c = '\r' ∨ c = '\n') (region : Region)
    (depth : Int) (index : Nat) (s : Text) :
    closingFrom region depth index (c :: s) = closingFrom region depth (index + 1) s := by
  rcases hc with rfl | rfl <;> cases region <;>
    simp [closingFrom, Region.next, quoteMark]

theorem rel_closingFrom {t t' u u' : Text} (h : Returned t t') (hu : Returned u u')
    (region : Region) (depth : Int) :
    Option.Rel (PlacedAlike (u ++ t) (u' ++ t')) (closingFrom region depth u.length t)
      (closingFrom region depth u'.length t') := by
  induction h generalizing u u' region depth with
  | nil => exact .none
  | @feed t t' h ih =>
      have hrest := ih (hu.append (.feed .nil)) region depth
      rw [closingFrom_break (.inr rfl), closingFrom_break (.inl rfl), closingFrom_break (.inr rfl)]
      simpa using hrest
  | @char c t t' hc h ih =>
      rw [closingFrom, closingFrom, Region.next_eq h]
      split
      · refine .some ⟨?_, ?_⟩
        · rw [List.take_left' rfl, List.take_left' rfl]
          exact hu
        · rw [List.drop_left' rfl, List.drop_left' rfl]
          exact .char hc h
      · simpa using ih (hu.append (.char hc .nil)) _ _

end ProcCatalog.Sql
