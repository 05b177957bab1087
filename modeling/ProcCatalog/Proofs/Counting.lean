import ProcCatalog.Proofs.Text.Order

/-!
# Counting into a list

Elements are counted one after the other into a list of pairs. Afterwards the list has each of them
once, in the order in which they first came, with how often it was counted.
-/

namespace ProcCatalog

variable {α : Type} {labels counted : List α} {f : α → Nat}

def numbered (labels : List α) (f : α → Nat) : List (α × Nat) := labels.map fun l => (l, f l)

theorem map_fst_numbered (labels : List α) (f : α → Nat) :
    (numbered labels f).map (·.1) = labels := by
  rw [numbered, List.map_map]
  exact List.map_id _

private theorem numbered_cons (l : α) (labels : List α) (f : α → Nat) :
    numbered (l :: labels) f = (l, f l) :: numbered labels f := rfl

private theorem numbered_congr {g : α → Nat} (h : ∀ l ∈ labels, f l = g l) :
    numbered labels f = numbered labels g :=
  List.map_congr_left fun l hl => congrArg (Prod.mk l) (h l hl)

variable [DecidableEq α] {x : α}

/-- One more of an element; one that was not counted before comes last. -/
def countInto (x : α) : List (α × Nat) → List (α × Nat)
  | [] => [(x, 1)]
  | (l, n) :: rest => if l = x then (l, n + 1) :: rest else (l, n) :: countInto x rest

/-- How often an element was counted after one more. -/
private def countedAlso (x : α) (f : α → Nat) (l : α) : Nat := f l + if x = l then 1 else 0

private theorem countedAlso_self : countedAlso x f x = f x + 1 := by rw [countedAlso, if_pos rfl]

private theorem countedAlso_of_ne {l : α} (h : x ≠ l) : countedAlso x f l = f l := by
  rw [countedAlso, if_neg h, Nat.add_zero]

private theorem countInto_of_mem (hnodup : labels.Nodup) (hx : x ∈ labels) :
    countInto x (numbered labels f) = numbered labels (countedAlso x f) := by
  induction labels with
  | nil => cases hx
  | cons l labels ih =>
      obtain ⟨hl, hnodup⟩ := List.nodup_cons.mp hnodup
      rw [numbered_cons, numbered_cons, countInto]
      split
      · rename_i hlx
        subst hlx
        rw [countedAlso_self]
        exact congrArg _ (numbered_congr fun k hk =>
          (countedAlso_of_ne fun heq => hl (by rwa [heq])).symm)
      · rename_i hlx
        have hx : x ∈ labels := (List.mem_cons.mp hx).resolve_left fun heq => hlx heq.symm
        rw [ih hnodup hx, countedAlso_of_ne (Ne.symm hlx)]

private theorem countInto_of_not_mem (hx : x ∉ labels) (hzero : f x = 0) :
    countInto x (numbered labels f) = numbered (labels ++ [x]) (countedAlso x f) := by
  induction labels with
  | nil => rw [List.nil_append, numbered_cons, countedAlso_self, hzero]; rfl
  | cons l labels ih =>
      rw [List.mem_cons, not_or] at hx
      rw [List.cons_append, numbered_cons, numbered_cons, countInto, if_neg (Ne.symm hx.1),
        ih hx.2, countedAlso_of_ne hx.1]

variable [BEq α] [LawfulBEq α]

private theorem countedAlso_add_count (x : α) (f : α → Nat) (counted : List α) :
    (fun l => countedAlso x f l + counted.count l) = fun l => f l + (x :: counted).count l := by
  funext l
  simp only [countedAlso, List.count_cons, beq_iff_eq]
  omega

/-- Elements that are there are counted in their places, and others are added as they come. -/
theorem foldl_countInto (hnodup : labels.Nodup) (hzero : ∀ l, l ∉ labels → f l = 0) :
    counted.foldl (fun t x => countInto x t) (numbered labels f) =
      numbered (labels ++ distinct (counted.filter fun l => decide (l ∉ labels)))
        fun l => f l + counted.count l := by
  -- An element that is new joins the others behind them, so both the elements and their numbers
  -- vary.
  induction counted generalizing labels f with
  | nil => simp [distinct]
  | cons x counted ih =>
      rw [List.foldl_cons]
      by_cases hx : x ∈ labels
      · have hzero' (l : α) (hl : l ∉ labels) : countedAlso x f l = 0 := by
          rw [countedAlso_of_ne fun heq => hl (by rwa [← heq]), hzero l hl]
        rw [countInto_of_mem hnodup hx, ih hnodup hzero', countedAlso_add_count]
        simp [hx]
      · have hzero' (l : α) (hl : l ∉ labels ++ [x]) : countedAlso x f l = 0 := by
          rw [List.mem_append, not_or, List.mem_singleton] at hl
          rw [countedAlso_of_ne (Ne.symm hl.2), hzero l hl.1]
        have hnodup' : (labels ++ [x]).Nodup := by
          refine List.nodup_append.mpr ⟨hnodup, List.nodup_singleton x, ?_⟩
          rintro l hl _ hmem rfl
          exact hx (List.mem_singleton.mp hmem ▸ hl)
        have hlabels : labels ++ [x] ++
              distinct (counted.filter fun l => decide (l ∉ labels ++ [x])) =
            labels ++ distinct ((x :: counted).filter fun l => decide (l ∉ labels)) := by
          rw [List.filter_cons_of_pos (by simpa using hx), distinct, distinct_filter,
            distinct_filter, List.filter_filter, List.append_assoc, List.singleton_append]
          refine congrArg (fun ls => labels ++ x :: ls) (List.filter_congr fun l _ => ?_)
          simp [and_comm]
        rw [countInto_of_not_mem hx (hzero x hx), ih hnodup' hzero', countedAlso_add_count,
          hlabels]

/-- Where all elements are there, each stays in its place. -/
theorem foldl_countInto_of_subset (hnodup : labels.Nodup) (h : ∀ l ∈ counted, l ∈ labels) :
    counted.foldl (fun t x => countInto x t) (numbered labels fun _ => 0) =
      numbered labels fun l => counted.count l := by
  have hnone : counted.filter (fun l => decide (l ∉ labels)) = [] := by
    simpa [List.filter_eq_nil_iff] using h
  rw [foldl_countInto hnodup fun _ _ => rfl, hnone]
  simp [distinct]

theorem foldl_countInto_nil (counted : List α) :
    counted.foldl (fun t x => countInto x t) [] =
      numbered (distinct counted) fun l => counted.count l := by
  have hof : counted.foldl (fun t x => countInto x t) (numbered [] fun _ => 0) = _ :=
    foldl_countInto List.nodup_nil fun _ _ => rfl
  simpa [numbered] using hof

omit [DecidableEq α] in
/-- The numbers add up to how many elements were counted. -/
theorem sum_numbered (hnodup : labels.Nodup) (h : ∀ x ∈ counted, x ∈ labels) :
    ((numbered labels fun l => counted.count l).map (·.2)).sum = counted.length := by
  have hperm : (labels.flatMap fun l => counted.filter (· == l)).Perm counted := by
    refine perm_flatMap_filter (f := fun l x => x == l)
      (hnodup.imp fun hne x hx => ?_) fun x hx => ?_
    · simpa [eq_of_beq hx] using hne
    · exact ⟨x, h x hx, beq_self_eq_true x⟩
  rw [← hperm.length_eq, List.length_flatMap, numbered, List.map_map]
  exact congrArg List.sum (List.map_congr_left fun l _ => List.countP_eq_length_filter)

theorem lookup_numbered (labels : List α) (f : α → Nat) (l : α) :
    (numbered labels f).lookup l = if l ∈ labels then some (f l) else none := by
  induction labels with
  | nil => rfl
  | cons k labels ih =>
      rw [numbered_cons, List.lookup_cons, ih]
      by_cases hl : l = k
      · simp [hl]
      · simp [hl, beq_eq_false_iff_ne.mpr hl]

end ProcCatalog
