import ProcCatalog.Proofs.Sql.Pieces

/-!
# Enclosed texts

Parentheses around a text are dropped unless one of the text itself closes the first of them.
Parentheses are counted wherever they stand, in literals too; where a text is split they are not,
so what keeps its parentheses is one piece.
-/

namespace ProcCatalog.Sql

variable {s : Text} {depth : Nat} {c : Char}

/-! ## Counting parentheses -/

/-- No part from the front closes more than `depth` parentheses that it does not open. -/
def StaysOpenFrom (depth : Nat) (s : Text) : Prop :=
  ∀ t, t <+: s → t.count ')' ≤ t.count '(' + depth

/-- The text closes no parenthesis in front of it, if those in literals count too. -/
def StaysOpen (s : Text) : Prop := StaysOpenFrom 0 s

theorem staysOpenFrom_nil : StaysOpenFrom depth [] := by
  intro t ht
  simp [List.prefix_nil.mp ht]

private theorem staysOpenFrom_cons {depth' : Nat}
    (h : ∀ t : Text, (c :: t).count ')' ≤ (c :: t).count '(' + depth ↔
      t.count ')' ≤ t.count '(' + depth') :
    StaysOpenFrom depth (c :: s) ↔ StaysOpenFrom depth' s := by
  constructor
  · intro hs t ht
    exact (h t).mp (hs _ (List.cons_prefix_cons.mpr ⟨rfl, ht⟩))
  · intro hs t ht
    cases t with
    | nil => simp
    | cons y t =>
        obtain ⟨rfl, hprefix⟩ := List.cons_prefix_cons.mp ht
        exact (h t).mpr (hs t hprefix)

theorem staysOpenFrom_open : StaysOpenFrom depth ('(' :: s) ↔ StaysOpenFrom (depth + 1) s :=
  staysOpenFrom_cons fun t => by
    simp
    omega

theorem staysOpenFrom_close : StaysOpenFrom (depth + 1) (')' :: s) ↔ StaysOpenFrom depth s :=
  staysOpenFrom_cons fun t => by
    simp
    omega

theorem not_staysOpenFrom_zero : ¬ StaysOpenFrom 0 (')' :: s) := fun h => by
  simpa using h [')'] (by simp)

theorem staysOpenFrom_other (hopen : c ≠ '(') (hclose : c ≠ ')') :
    StaysOpenFrom depth (c :: s) ↔ StaysOpenFrom depth s :=
  staysOpenFrom_cons fun t => by simp [hopen, hclose]

theorem staysOpen_of_not_mem (h : ')' ∉ s) : StaysOpen s := by
  intro t ht
  rw [List.count_eq_zero.mpr fun hmem => h (ht.subset hmem)]
  exact Nat.zero_le _

private theorem staysOpenFrom_doubled :
    StaysOpenFrom depth (doubled s) ↔ StaysOpenFrom depth s := by
  induction s generalizing depth with
  | nil => rfl
  | cons c s ih =>
      have hquote {t : Text} {depth : Nat} :
          StaysOpenFrom depth (quoteMark :: t) ↔ StaysOpenFrom depth t :=
        staysOpenFrom_other (by decide) (by decide)
      by_cases hc : c = quoteMark
      · subst hc
        rw [doubled_quote, hquote, hquote, hquote, ih]
      · rw [doubled_cons hc]
        by_cases hopen : c = '('
        · rw [hopen, staysOpenFrom_open, staysOpenFrom_open, ih]
        · by_cases hclose : c = ')'
          · cases depth with
            | zero => simp [hclose, not_staysOpenFrom_zero]
            | succ depth => rw [hclose, staysOpenFrom_close, staysOpenFrom_close, ih]
          · rw [staysOpenFrom_other hopen hclose, staysOpenFrom_other hopen hclose, ih]

namespace StaysOpen

theorem append {t : Text} (hs : StaysOpen s) (ht : StaysOpen t) : StaysOpen (s ++ t) := by
  rintro r ⟨v, hcut⟩
  rcases List.append_eq_append_iff.mp hcut with ⟨u, hu, -⟩ | ⟨u, rfl, hu⟩
  · exact hs r ⟨u, hu.symm⟩
  · have hcounts := Nat.add_le_add (hs s (List.prefix_refl s)) (ht u ⟨v, hu.symm⟩)
    rw [List.count_append, List.count_append]
    omega

theorem flatMap {α : Type} {xs : List α} {f : α → Text} (h : ∀ x ∈ xs, StaysOpen (f x)) :
    StaysOpen (xs.flatMap f) := by
  induction xs with
  | nil => exact staysOpenFrom_nil
  | cons x xs ih =>
      rw [List.flatMap_cons]
      exact append (h x (by simp)) (ih fun y hy => h y (by simp [hy]))

theorem enclosed (hs : StaysOpen s) : StaysOpen ('(' :: (s ++ [')'])) := by
  refine staysOpenFrom_open.mpr fun r hr => ?_
  rcases List.prefix_concat_iff.mp hr with rfl | hr
  · have hcounts := hs s (List.prefix_refl s)
    have hopen : (s ++ [')']).count '(' = s.count '(' := by simp
    have hclose : (s ++ [')']).count ')' = s.count ')' + 1 := by simp
    omega
  · exact (hs r hr).trans (Nat.add_le_add_left (Nat.zero_le 1) _)

theorem literal (hs : StaysOpen s) : StaysOpen (literal s) := by
  have hquote : StaysOpen [quoteMark] := staysOpen_of_not_mem (by decide)
  exact hquote.append (append (staysOpenFrom_doubled.mpr hs) hquote)

end StaysOpen

/-! ## Enclosing parentheses -/

theorem closesEarly_append_iff (s : Text) (depth : Nat) :
    closesEarly (depth + 1) (s ++ [')']) = true ↔ ¬ StaysOpenFrom depth s := by
  induction s generalizing depth with
  | nil => simp [closesEarly, staysOpenFrom_nil]
  | cons c s ih =>
      rw [List.cons_append, closesEarly]
      split
      · rename_i hc
        subst hc
        rw [ih, staysOpenFrom_open]
      · rename_i hopen
        split
        · rename_i hc
          subst hc
          cases depth with
          | zero => simp [not_staysOpenFrom_zero]
          | succ depth =>
              rw [staysOpenFrom_close, ← ih]
              simp
        · rename_i hclose
          rw [ih, staysOpenFrom_other hopen hclose]

instance : DecidablePred StaysOpen := fun s =>
  decidable_of_iff (closesEarly 1 (s ++ [')']) = false) <| by
    rw [← Bool.not_eq_true, closesEarly_append_iff, not_not]
    rfl

theorem trim_enclosed (s : Text) : Text.trim ('(' :: (s ++ [')'])) = '(' :: (s ++ [')']) := by
  refine Text.Solid.trim_eq_self rfl ?_
  rw [← List.cons_append]
  refine .append_of_ne_nil _ ?_ (by simp)
  rintro x ⟨⟩
  rfl

theorem unwrapParens_enclosed (hs : Text.trim s = s) :
    unwrapParens ('(' :: (s ++ [')'])) = if StaysOpen s then s else '(' :: (s ++ [')']) := by
  have hearly : closesEarly 0 ('(' :: (s ++ [')'])) = !decide (StaysOpen s) := by
    rw [Bool.eq_iff_iff, Bool.not_eq_true', decide_eq_false_iff_not]
    exact closesEarly_append_iff s 0
  have hlast : ('(' :: (s ++ [')'])).getLast? = some ')' := by
    rw [← List.cons_append, List.getLast?_concat]
  simp only [unwrapParens, trim_enclosed, hearly, hlast, List.head?_cons]
  by_cases hopen : StaysOpen s
  · simp [hopen, hs]
  · simp [hopen]

/-- What stays in parentheses is not split. -/
theorem splitTopLevel_enclosed (hs : UnsplitAt 1 s) :
    splitTopLevel comma ('(' :: (s ++ [')'])) = ['(' :: (s ++ [')'])] := by
  have hwhole : Unsplit ('(' :: (s ++ [')'])) := UnsplitAt.enclosed hs
  have hpieces := hwhole [] []
  rw [List.append_nil, List.append_nil] at hpieces
  rw [splitTopLevel, hpieces, piecesFrom, List.reverse_reverse, List.map_singleton, trim_enclosed]
  rfl

end ProcCatalog.Sql
