import ProcCatalog.Text.CodePoint
import Mathlib

/-!
# Order and sorting

Texts are in a total order, and so are lists of texts. A list that is sorted holds what it held
before, and no element stands behind one that it should precede.
-/

namespace ProcCatalog

variable {α β : Type} {le : α → α → Bool}

/-- Any two elements are ranked, and the ranking is transitive. Elements may tie. -/
structure Ranks (le : α → α → Bool) : Prop where
  total : ∀ x y, le x y = true ∨ le y x = true
  trans : ∀ x y z, le x y = true → le y z = true → le x z = true

namespace Ranks

theorem refl (h : Ranks le) (x : α) : le x x = true := (h.total x x).elim id id

theorem comap (h : Ranks le) (f : β → α) : Ranks fun a b => le (f a) (f b) :=
  ⟨fun a b => h.total (f a) (f b), fun a b c => h.trans (f a) (f b) (f c)⟩

end Ranks

/-! ## Lists compared at their first difference -/

theorem lexLe_cons (x y : α) (xs ys : List α) :
    lexLe le (x :: xs) (y :: ys) = true ↔
      le x y = true ∧ (le y x = true → lexLe le xs ys = true) := by
  rw [lexLe]
  cases le x y <;> cases le y x <;> simp

private theorem lexLe_total (h : Ranks le) (xs ys : List α) :
    lexLe le xs ys = true ∨ lexLe le ys xs = true := by
  induction xs generalizing ys with
  | nil => exact .inl rfl
  | cons x xs ih =>
      cases ys with
      | nil => exact .inr rfl
      | cons y ys =>
          rw [lexLe_cons, lexLe_cons]
          by_cases hxy : le x y = true
          · by_cases hyx : le y x = true
            · simpa [hxy, hyx] using ih ys
            · exact .inl ⟨hxy, fun h => absurd h hyx⟩
          · have hyx := (h.total x y).resolve_left hxy
            exact .inr ⟨hyx, fun h => absurd h hxy⟩

private theorem lexLe_trans (h : Ranks le) (xs ys zs : List α) (hxy : lexLe le xs ys = true)
    (hyz : lexLe le ys zs = true) : lexLe le xs zs = true := by
  induction xs generalizing ys zs with
  | nil => rfl
  | cons x xs ih =>
      cases ys with
      | nil => simp [lexLe] at hxy
      | cons y ys =>
          cases zs with
          | nil => simp [lexLe] at hyz
          | cons z zs =>
              rw [lexLe_cons] at hxy hyz ⊢
              refine ⟨h.trans x y z hxy.1 hyz.1, fun hzx => ?_⟩
              have hyx : le y x = true := h.trans y z x hyz.1 hzx
              have hzy : le z y = true := h.trans z x y hzx hxy.1
              exact ih ys zs (hxy.2 hyx) (hyz.2 hzy)

theorem Ranks.lexLe (h : Ranks le) : Ranks (lexLe le) := ⟨lexLe_total h, lexLe_trans h⟩

theorem lexLe_antisymm (h : ∀ x y, le x y = true → le y x = true → x = y) {xs ys : List α}
    (hxy : lexLe le xs ys = true) (hyx : lexLe le ys xs = true) : xs = ys := by
  induction xs generalizing ys with
  | nil =>
      cases ys with
      | nil => rfl
      | cons y ys => simp [lexLe] at hyx
  | cons x xs ih =>
      cases ys with
      | nil => simp [lexLe] at hxy
      | cons y ys =>
          rw [lexLe_cons] at hxy hyx
          rw [h x y hxy.1 hyx.1, ih (hxy.2 hyx.1) (hyx.2 hxy.1)]

namespace Text

theorem ranks_le : Ranks Text.le := by
  refine Ranks.lexLe ⟨fun c d => ?_, fun c d e => ?_⟩
  · simpa [charLe] using Nat.le_total c.toNat d.toNat
  · simpa [charLe] using Nat.le_trans

theorem le_antisymm {s t : Text} (hst : Text.le s t = true) (hts : Text.le t s = true) :
    s = t := by
  refine lexLe_antisymm (fun c d hcd hdc => ?_) hst hts
  have hcd : c.toNat ≤ d.toNat := by simpa [charLe] using hcd
  have hdc : d.toNat ≤ c.toNat := by simpa [charLe] using hdc
  exact Char.toNat_inj.mp (Nat.le_antisymm hcd hdc)

end Text

/-! ## Raw texts -/

/-- No character has the number of half of a surrogate pair. -/
theorem CodePoint.toNat_inj {c d : CodePoint} (h : c.toNat = d.toNat) : c = d := by
  have hchar (a : Char) : a.toNat < 0xd800 ∨ 0xd800 + 2048 ≤ a.toNat := by
    have hvalid := a.valid
    simp only [UInt32.isValidChar, Nat.isValidChar] at hvalid
    change a.val.toNat < _ ∨ _ ≤ a.val.toNat
    omega
  cases c with
  | char a =>
      cases d with
      | char b => rw [Char.toNat_inj.mp h]
      | half n =>
          have ha := hchar a
          simp only [toNat] at h
          omega
  | half m =>
      cases d with
      | char b =>
          have hb := hchar b
          simp only [toNat] at h
          omega
      | half n => rw [Fin.ext (Nat.add_left_cancel h)]

namespace RawText

theorem ranks_le : Ranks RawText.le := by
  refine Ranks.lexLe ⟨fun c d => ?_, fun c d e => ?_⟩
  · simpa [CodePoint.le] using Nat.le_total c.toNat d.toNat
  · simpa [CodePoint.le] using Nat.le_trans

theorem le_antisymm {s t : RawText} (hst : RawText.le s t = true) (hts : RawText.le t s = true) :
    s = t := by
  refine lexLe_antisymm (fun c d hcd hdc => ?_) hst hts
  have hcd : c.toNat ≤ d.toNat := by simpa [CodePoint.le] using hcd
  have hdc : d.toNat ≤ c.toNat := by simpa [CodePoint.le] using hdc
  exact CodePoint.toNat_inj (Nat.le_antisymm hcd hdc)

/-- The texts stand in ascending order, each once. -/
def Ascending (ts : List RawText) : Prop := ts.Pairwise fun s t => RawText.le s t = true ∧ s ≠ t

end RawText

/-! ## Sorting -/

theorem mem_insertBy {x y : α} {ys : List α} : y ∈ insertBy le x ys ↔ y = x ∨ y ∈ ys := by
  rw [(insertBy_perm le x ys).mem_iff, List.mem_cons]

private theorem pairwise_insertBy (h : Ranks le) (x : α) {ys : List α}
    (hys : ys.Pairwise fun a b => le a b = true) :
    (insertBy le x ys).Pairwise fun a b => le a b = true := by
  induction ys with
  | nil => simp [insertBy]
  | cons y ys ih =>
      obtain ⟨hy, hys⟩ := List.pairwise_cons.mp hys
      rw [insertBy]
      split
      · rename_i hxy
        refine List.pairwise_cons.mpr ⟨fun z hz => ?_, List.pairwise_cons.mpr ⟨hy, hys⟩⟩
        rcases List.mem_cons.mp hz with rfl | hz
        · exact hxy
        · exact h.trans x y z hxy (hy z hz)
      · rename_i hxy
        refine List.pairwise_cons.mpr ⟨fun z hz => ?_, ih hys⟩
        rcases mem_insertBy.mp hz with rfl | hz
        · exact (h.total z y).resolve_left hxy
        · exact hy z hz

theorem pairwise_sortBy (h : Ranks le) (xs : List α) :
    (sortBy le xs).Pairwise fun a b => le a b = true := by
  induction xs with
  | nil => exact .nil
  | cons x xs ih => exact pairwise_insertBy h x ih

theorem mem_sortBy {x : α} {xs : List α} : x ∈ sortBy le xs ↔ x ∈ xs :=
  (sortBy_perm le xs).mem_iff

theorem insertBy_map {β : Type} {le' : β → β → Bool} {f : α → β}
    (h : ∀ x y, le' (f x) (f y) = le x y) (x : α) (ys : List α) :
    insertBy le' (f x) (ys.map f) = (insertBy le x ys).map f := by
  induction ys with
  | nil => rfl
  | cons y ys ih =>
      rw [List.map_cons, insertBy, insertBy, h, ih]
      split <;> rfl

theorem sortBy_map {β : Type} {le' : β → β → Bool} {f : α → β}
    (h : ∀ x y, le' (f x) (f y) = le x y) (xs : List α) :
    sortBy le' (xs.map f) = (sortBy le xs).map f := by
  induction xs with
  | nil => rfl
  | cons x xs ih =>
      change insertBy le' (f x) (sortBy le' (xs.map f)) = _
      rw [ih, insertBy_map h]
      rfl

/-- Elements that all tie keep their order. -/
private theorem filter_insertBy {p : α → Bool} {x : α} {ys : List α}
    (h : ∀ y ∈ ys, p x = true → p y = true → le x y = true) :
    (insertBy le x ys).filter p = (x :: ys).filter p := by
  induction ys with
  | nil => rfl
  | cons y ys ih =>
      obtain ⟨hy, hys⟩ := List.forall_mem_cons.mp h
      rw [insertBy]
      split
      · rfl
      · rename_i hxy
        rw [List.filter_cons, ih hys]
        by_cases hpx : p x = true
        · have hpy : p y = false := Bool.eq_false_iff.mpr fun hpy => hxy (hy hpx hpy)
          simp [hpx, hpy]
        · simp [List.filter_cons, hpx]

/-- Sorting is stable. -/
theorem filter_sortBy {p : α → Bool} {xs : List α}
    (h : ∀ x ∈ xs, ∀ y ∈ xs, p x = true → p y = true → le x y = true) :
    (sortBy le xs).filter p = xs.filter p := by
  induction xs with
  | nil => rfl
  | cons x xs ih =>
      have hx : ∀ y ∈ sortBy le xs, p x = true → p y = true → le x y = true := fun y hy =>
        h x List.mem_cons_self y (List.mem_cons_of_mem _ (mem_sortBy.mp hy))
      have hxs := ih fun y hy z hz =>
        h y (List.mem_cons_of_mem _ hy) z (List.mem_cons_of_mem _ hz)
      change (insertBy le x (sortBy le xs)).filter p = _
      rw [filter_insertBy hx, List.filter_cons, List.filter_cons, hxs]

/-- The first element of a sorted list that is looked for precedes all others that would do. -/
theorem le_of_find?_sortBy (h : Ranks le) {p : α → Bool} {xs : List α} {x : α}
    (hfind : (sortBy le xs).find? p = some x) {y : α} (hy : y ∈ xs) (hp : p y = true) :
    le x y = true := by
  obtain ⟨-, before, after, hsplit, hbefore⟩ := List.find?_eq_some_iff_append.mp hfind
  have hsorted := pairwise_sortBy h xs
  have hy : y ∈ sortBy le xs := mem_sortBy.mpr hy
  rw [hsplit] at hsorted hy
  rcases List.mem_append.mp hy with hy | hy
  · have hno := hbefore y hy
    simp [hp] at hno
  · rcases List.mem_cons.mp hy with rfl | hy
    · exact h.refl y
    · exact (List.pairwise_cons.mp (List.pairwise_append.mp hsorted).2.1).1 y hy

/-- Where no two elements tie, only the elements matter for what sorting gives. -/
theorem sortBy_eq_of_perm (h : Ranks le) {xs ys : List α} (hperm : xs.Perm ys)
    (hanti : ∀ x ∈ xs, ∀ y ∈ xs, le x y = true → le y x = true → x = y) :
    sortBy le xs = sortBy le ys := by
  have hsorted : (sortBy le xs).Perm (sortBy le ys) :=
    ((sortBy_perm le xs).trans hperm).trans (sortBy_perm le ys).symm
  refine hsorted.eq_of_pairwise (fun x y hx hy => ?_) (pairwise_sortBy h xs) (pairwise_sortBy h ys)
  exact hanti x (mem_sortBy.mp hx) y (hperm.mem_iff.mpr (mem_sortBy.mp hy))

/-- A list whose order leaves no choice is determined by its members. -/
theorem eq_of_mem_iff {r : α → α → Prop} (hr : ∀ x y, r x y → ¬r y x) {xs ys : List α}
    (hxs : xs.Pairwise r) (hys : ys.Pairwise r) (hmem : ∀ x, x ∈ xs ↔ x ∈ ys) : xs = ys := by
  have hirrefl : Std.Irrefl r := ⟨fun x hx => hr x x hx hx⟩
  have hantisymm : Std.Antisymm r := ⟨fun x y hxy hyx => absurd hyx (hr x y hxy)⟩
  exact hxs.eq_of_mem_iff hys hmem

/-! ## Distinct elements -/

section

variable [DecidableEq α]

@[simp] theorem mem_distinct {x : α} {xs : List α} : x ∈ distinct xs ↔ x ∈ xs := by
  induction xs with
  | nil => rfl
  | cons y xs ih =>
      by_cases hxy : x = y <;> simp [distinct, ih, hxy]

theorem nodup_distinct (xs : List α) : (distinct xs).Nodup := by
  induction xs with
  | nil => exact .nil
  | cons x xs ih =>
      refine List.nodup_cons.mpr ⟨?_, ih.filter _⟩
      simp

theorem distinct_filter (p : α → Bool) (xs : List α) :
    distinct (xs.filter p) = (distinct xs).filter p := by
  induction xs with
  | nil => rfl
  | cons x xs ih =>
      by_cases hx : p x = true
      · rw [List.filter_cons_of_pos hx, distinct, distinct, ih, List.filter_cons_of_pos hx,
          List.filter_comm]
      · rw [List.filter_cons_of_neg hx, distinct, ih, List.filter_cons_of_neg hx,
          List.filter_filter]
        refine List.filter_congr fun y _ => ?_
        by_cases hyx : y = x
        · simp [hyx, hx]
        · simp [hyx]

/-- What is found first is found among the first occurrences. -/
theorem find?_distinct (p : α → Bool) (xs : List α) : (distinct xs).find? p = xs.find? p := by
  induction xs with
  | nil => rfl
  | cons x xs ih =>
      rw [distinct, List.find?_cons, List.find?_cons]
      cases hx : p x with
      | true => rfl
      | false =>
          have hsame : (fun y => decide (decide (y ≠ x) = true ∧ p y = true)) = p := by
            funext y
            by_cases hyx : y = x
            · simp [hyx, hx]
            · simp [hyx]
          rw [List.find?_filter, hsame, ih]

end

theorem RawText.ascending_sortBy {ts : List RawText} (h : ts.Nodup) :
    Ascending (sortBy RawText.le ts) :=
  (pairwise_sortBy ranks_le ts).and ((sortBy_perm _ ts).nodup_iff.mpr h)

namespace Text

/-- The texts stand in ascending order, each once. -/
def Ascending (ts : List Text) : Prop := ts.Pairwise fun s t => Text.le s t = true ∧ s ≠ t

theorem Ascending.eq_of_mem_iff {ts ts' : List Text} (h : Ascending ts) (h' : Ascending ts')
    (hmem : ∀ t, t ∈ ts ↔ t ∈ ts') : ts = ts' :=
  ProcCatalog.eq_of_mem_iff (fun _ _ hst hts => hst.2 (le_antisymm hst.1 hts.1)) h h' hmem

theorem mem_sortedSet {t : Text} {ts : List Text} : t ∈ sortedSet ts ↔ t ∈ ts := by
  rw [sortedSet, sorted, mem_sortBy, mem_distinct]

theorem ascending_sortedSet (ts : List Text) : Ascending (sortedSet ts) :=
  (pairwise_sortBy ranks_le _).and ((sortBy_perm le _).nodup_iff.mpr (nodup_distinct ts))

/-- Texts may be made a sorted set in two groups first. -/
theorem sortedSet_append (ts ts' : List Text) :
    sortedSet (ts ++ ts') = sortedSet (sortedSet ts ++ sortedSet ts') := by
  refine (ascending_sortedSet _).eq_of_mem_iff (ascending_sortedSet _) fun t => ?_
  simp only [mem_sortedSet, List.mem_append]

end Text

/-- A set is as large as a list that holds each of its elements once. -/
theorem encard_eq_length {xs : List α} {s : Set α} (hnodup : xs.Nodup)
    (hmem : ∀ x, x ∈ xs ↔ x ∈ s) : s.encard = xs.length := by
  classical
  have hs : s = (xs.toFinset : Set α) := by
    ext x
    simp [hmem]
  rw [hs, Set.encard_coe_eq_coe_finsetCard, List.toFinset_card_of_nodup hnodup]

/-- Nothing is found under a key exactly if it is none of the keys. -/
theorem lookup_eq_none_iff_not_mem [BEq α] [LawfulBEq α] {key : α} {pairs : List (α × β)} :
    pairs.lookup key = none ↔ key ∉ pairs.map (·.1) := by
  rw [List.lookup_eq_none_iff, List.mem_map, not_exists]
  refine forall_congr' fun pair => ?_
  rw [bne_iff_ne, not_and, ne_comm]

/-! ## Parting a list -/

/-- If each element is taken for exactly one key, all elements are taken once. -/
theorem perm_flatMap_filter {f : α → β → Bool} {keys : List α} {xs : List β}
    (hapart : keys.Pairwise fun s t => ∀ x, f s x = true → f t x = false)
    (hsome : ∀ x ∈ xs, ∃ s ∈ keys, f s x = true) :
    (keys.flatMap fun s => xs.filter (f s)).Perm xs := by
  induction keys generalizing xs with
  | nil =>
      obtain rfl : xs = [] := List.eq_nil_iff_forall_not_mem.mpr fun x hx => by
        simpa using hsome x hx
      exact .nil
  | cons s keys ih =>
      obtain ⟨hs, hkeys⟩ := List.pairwise_cons.mp hapart
      have hrest : keys.flatMap (fun t => xs.filter (f t)) =
          keys.flatMap fun t => (xs.filter fun x => !f s x).filter (f t) := by
        refine List.flatMap_congr fun t ht => ?_
        rw [List.filter_filter]
        refine List.filter_congr fun x _ => ?_
        by_cases hx : f s x = true
        · simp [hx, hs t ht x hx]
        · simp [hx]
      have hperm : (keys.flatMap fun t => (xs.filter fun x => !f s x).filter (f t)).Perm
          (xs.filter fun x => !f s x) := by
        refine ih hkeys fun x hx => ?_
        obtain ⟨hx, hno⟩ := List.mem_filter.mp hx
        obtain ⟨t, ht, hfx⟩ := hsome x hx
        rcases List.mem_cons.mp ht with rfl | ht
        · simp [hfx] at hno
        · exact ⟨t, ht, hfx⟩
      rw [List.flatMap_cons, hrest]
      exact (hperm.append_left _).trans (List.filter_append_perm (f s) xs)

end ProcCatalog
