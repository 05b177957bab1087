import ProcCatalog.Proofs.Pattern.Preference
import ProcCatalog.Proofs.Text.Returns

/-!
# Patterns and carriage returns

A pattern is run on a text and on the same text with carriage returns in front of line feeds. As
long as both runs stand at the same place they go on alike. The second run can also stand between
a carriage return and its line feed, where the first has no such place. `Ahead` tells what a
pattern and all that follows it do there, and `ahead` computes it from the end of a pattern to its
beginning.
-/

namespace ProcCatalog

open Text

/-! ## Answers of two runs -/

section

variable {α β : Type} {R : α → β → Prop} {x y : Option α} {x' y' z' : Option β}

theorem eq_none_of_rel (h : Option.Rel R none x') : x' = none := by
  cases h
  rfl

theorem isSome_eq_of_rel (h : Option.Rel R x x') : x'.isSome = x.isSome := by
  cases h <;> rfl

theorem rel_mono {Q : α → β → Prop} (h : Option.Rel R x x') (hRQ : ∀ a b, R a b → Q a b) :
    Option.Rel Q x x' := by
  cases h with
  | none => exact .none
  | some h => exact .some (hRQ _ _ h)

theorem rel_map {α' β' : Type} {Q : α' → β' → Prop} {f : α → α'} {g : β → β'}
    (h : Option.Rel R x x') (hfg : ∀ a b, R a b → Q (f a) (g b)) :
    Option.Rel Q (x.map f) (x'.map g) := by
  cases h with
  | none => exact .none
  | some h => exact .some (hfg _ _ h)

theorem rel_bind {α' β' : Type} {Q : α' → β' → Prop} {f : α → Option α'} {g : β → Option β'}
    (h : Option.Rel R x x') (hfg : ∀ a b, R a b → Option.Rel Q (f a) (g b)) :
    Option.Rel Q (x.bind f) (x'.bind g) := by
  cases h with
  | none => exact .none
  | some h => exact hfg _ _ h

theorem getD_of_rel (h : Option.Rel R x x') {a : α} {b : β} (hab : R a b) :
    R (x.getD a) (x'.getD b) := by
  cases h with
  | none => exact hab
  | some h => exact h

theorem rel_orElse (hx : Option.Rel R x x') (hy : Option.Rel R y y') :
    Option.Rel R (x <|> y) (x' <|> y') := by
  cases hx with
  | some h => exact .some h
  | none => simpa using hy

/-- The second run has tried something else last, but the first has found the same. -/
theorem rel_orElse_between (hx : Option.Rel R x x') (hz : Option.Rel R y z')
    (hy : Option.Rel R y y') : Option.Rel R (x <|> y) ((x' <|> z') <|> y') := by
  cases hx with
  | some h => exact .some h
  | none =>
      cases hz with
      | some h => exact .some h
      | none => simpa using hy

/-- The second run has tried something else in vain. -/
theorem rel_orElse_in_vain (hx : Option.Rel R x x') (hz : x = none → z' = none)
    (hy : Option.Rel R y y') : Option.Rel R (x <|> y) (x' <|> (z' <|> y')) := by
  cases hx with
  | some h => exact .some h
  | none =>
      rw [hz rfl]
      simpa using hy

end

/-! ## Places -/

/-- One mark in both texts. Under some names, the end of a mark may stand between a carriage return
and its line feed. -/
structure MarkAlike (cuts : String → Bool) (m m' : String × Text) : Prop where
  name : m'.1 = m.1
  text : if cuts m.1 then ReturnedCut m.2 m'.2 else Returned m.2 m'.2

abbrev MarksAlike (cuts : String → Bool) : (marks marks' : List (String × Text)) → Prop :=
  List.Forall₂ (MarkAlike cuts)

variable {cuts : String → Bool} {c c' d d' e e' m : Cursor} {s s' : Text}

namespace Cursor

@[simp] theorem step_rest (c : Cursor) (x : Char) (s : Text) : (c.step x s).rest = s := rfl

@[simp] theorem step_before (c : Cursor) (x : Char) (s : Text) :
    (c.step x s).before = some x := rfl

/-- Both stand at the same place. -/
structure Abreast (cuts : String → Bool) (d d' : Cursor) : Prop where
  rest : Returned d.rest d'.rest
  before : d'.before = d.before
  clear : d.before ≠ some '\r'
  marks : MarksAlike cuts d.marks d'.marks

/-- One stands in front of a line feed, the other between that line feed and its carriage
return. -/
structure Astride (cuts : String → Bool) (d m : Cursor) : Prop where
  rest : ∃ s s', d.rest = '\n' :: s ∧ m.rest = '\n' :: s' ∧ Returned s s'
  before : m.before = some '\r'
  clear : d.before ≠ some '\r'
  marks : MarksAlike cuts d.marks m.marks

/-- On the way both passed the same, carriage returns aside. -/
def Passed (c c' d d' : Cursor) : Prop :=
  ∃ v, c'.After v d' ∧ c.After (withoutReturns v) d

namespace Passed

theorem refl (c c' : Cursor) : Passed c c' c c' := ⟨[], .refl c', .refl c⟩

theorem trans (first : Passed c c' d d') (second : Passed d d' e e') : Passed c c' e e' := by
  obtain ⟨v, after', after⟩ := first
  obtain ⟨w, more', more⟩ := second
  refine ⟨v ++ w, after'.trans more', ?_⟩
  rw [withoutReturns_append]
  exact after.trans more

theorem step {x : Char} {s s' : Text} (hx : x ≠ '\r') (hs : d.rest = x :: s)
    (hs' : d'.rest = x :: s') : Passed d d' (d.step x s) (d'.step x s') := by
  refine ⟨[x], .step hs', ?_⟩
  rw [withoutReturns_cons hx]
  exact .step hs

theorem cut {s' : Text} (hs' : d'.rest = '\r' :: s') : Passed d d' d (d'.step '\r' s') :=
  ⟨['\r'], .step hs', .refl d⟩

theorem mark (h : Passed c c' d d') (name : String) (s s' : Text) :
    Passed c c' (d.mark name s) (d'.mark name s') := by
  obtain ⟨v, after', after⟩ := h
  exact ⟨v, after'.mark name s', after.mark name s⟩

end Passed

namespace Abreast

/-- Two cursors in front of the texts they are to read. -/
theorem of_returned (h : Returned s s') (i i' : Nat) :
    Abreast cuts ⟨none, s, i, []⟩ ⟨none, s', i', []⟩ :=
  ⟨h, rfl, by simp, .nil⟩

theorem step {x : Char} {s s' : Text} (h : Abreast cuts d d') (hx : x ≠ '\r')
    (hs : Returned s s') : Abreast cuts (d.step x s) (d'.step x s') :=
  ⟨hs, rfl, by simpa [Cursor.step] using hx, h.marks⟩

theorem cut {s s' : Text} (h : Abreast cuts d d') (hs : d.rest = '\n' :: s)
    (hr : Returned s s') : Astride cuts d (d'.step '\r' ('\n' :: s')) :=
  ⟨⟨s, s', hs, rfl, hr⟩, rfl, h.clear, h.marks⟩

end Abreast

theorem Astride.step {s s' : Text} (h : Astride cuts d m) (hr : Returned s s') :
    Abreast cuts (d.step '\n' s) (m.step '\n' s') :=
  ⟨hr, rfl, by simp [Cursor.step], h.marks⟩

theorem Astride.returned (h : Astride cuts d m) : Returned d.rest m.rest := by
  obtain ⟨s, s', hs, hm, hr⟩ := h.rest
  rw [hs, hm]
  exact .char (by decide) hr

private theorem After.before_eq {v : Text} (h : c.After v d) (hv : v ≠ []) :
    d.before = v.getLast? := by
  obtain ⟨x, w, rfl⟩ := List.exists_cons_of_ne_nil hv
  rw [h.before, ← lastOr_none]
  rfl

namespace Abreast

theorem returned {v : Text} (h : Abreast cuts d d') (hc : Returned s (v ++ d'.rest))
    (hv : c'.After v d') : Returned (withoutReturns v) v := by
  refine hc.cut_of_append.returned fun hlast => ?_
  have hne : v ≠ [] := by
    rintro rfl
    simp at hlast
  exact h.clear (by rw [← h.before, hv.before_eq hne, hlast])

/-- Where both stand at the same place, both have moved or neither has. -/
theorem moved_iff (h : Abreast cuts e e') (hpassed : Passed d d' e e') :
    d'.offset < e'.offset ↔ d.offset < e.offset := by
  obtain ⟨v, after', after⟩ := hpassed
  have hnil : withoutReturns v = [] ↔ v = [] := by
    constructor
    · intro hnone
      by_contra hne
      have hlast : v.getLast? = some '\r' := by
        obtain ⟨w, x, rfl⟩ := (List.eq_nil_or_concat v).resolve_left hne
        have hx := List.filter_eq_nil_iff.mp hnone x (by simp)
        obtain rfl : x = '\r' := by simpa using hx
        simp
      exact h.clear (by rw [← h.before, after'.before_eq hne, hlast])
    · rintro rfl
      rfl
  rw [after'.offset, after.offset, Nat.lt_add_right_iff_pos, Nat.lt_add_right_iff_pos,
    List.length_pos_iff, List.length_pos_iff, not_iff_not, hnil]

end Abreast

end Cursor

namespace Pattern

/-! ## What follows -/

/-- What is known of a continuation where the first text stands in front of a line feed and the
second between a carriage return and that line feed. -/
structure Ahead where
  /-- They go on alike. -/
  between : Bool
  /-- The second goes on as the first does behind the line feed. -/
  behind : Bool
  /-- Neither goes on. -/
  shut : Bool
  deriving DecidableEq

open Cursor

/-- Two continuations behind the cursors `c` and `c'` go on alike. -/
structure Follows (cuts : String → Bool) (R : Cursor → Cursor → Prop) (K : Ahead) (c c' : Cursor)
    (k k' : Follow) : Prop where
  abreast : ∀ {d d'}, Passed c c' d d' → Abreast cuts d d' → Option.Rel R (k d) (k' d')
  between : K.between = true → ∀ {d m}, Passed c c' d m → Astride cuts d m →
    Option.Rel R (k d) (k' m)
  behind : K.behind = true → ∀ {d m s}, Passed c c' d m → Astride cuts d m → d.rest = '\n' :: s →
    Option.Rel R (k (d.step '\n' s)) (k' m)
  shut : K.shut = true → ∀ {d m}, Passed c c' d m → Astride cuts d m → k d = none ∧ k' m = none

/-- Running a pattern turns continuations of which `K` is known into some of which `B` is known.
`solid` tells that the text does not end with a line feed. -/
def Carries (solid : Bool) (cuts : String → Bool) (p : Pattern) (K B : Ahead) : Prop :=
  ∀ ⦃R : Cursor → Cursor → Prop⦄ ⦃c c' : Cursor⦄ ⦃k k' : Follow⦄,
    (solid = true → c.rest.getLast? ≠ some '\n') → Follows cuts R K c c' k k' →
      Follows cuts R B c c' (fun d => p.run d k) fun d => p.run d k'

variable {R : Cursor → Cursor → Prop} {K B : Ahead} {k k' : Follow} {solid : Bool}
  {p q : Pattern} {accepts : Char → Bool}

theorem Follows.later (h : Follows cuts R K c c' k k') (hpassed : Passed c c' d d') :
    Follows cuts R K d d' k k' where
  abreast more := h.abreast (hpassed.trans more)
  between hK _ _ more := h.between hK (hpassed.trans more)
  behind hK _ _ _ more := h.behind hK (hpassed.trans more)
  shut hK _ _ more := h.shut hK (hpassed.trans more)

theorem solid_later (hsolid : c.rest.getLast? ≠ some '\n') (h : Passed c c' d d') :
    d.rest.getLast? ≠ some '\n' := by
  obtain ⟨v, -, after⟩ := h
  intro hlast
  exact hsolid (by rw [after.rest, List.getLast?_append, hlast]; rfl)

/-! ## One character, and runs of characters -/

private theorem rel_one (hsame : accepts '\r' = accepts '\n')
    (hbehind : accepts '\n' = true → K.behind = true) (h : Follows cuts R K c c' k k')
    (hpassed : Passed c c' d d') (habreast : Abreast cuts d d') :
    Option.Rel R (run (.one accepts) d k) (run (.one accepts) d' k') := by
  rw [run, run]
  generalize hs : d.rest = s
  generalize hs' : d'.rest = s'
  have hrest : Returned s s' := hs ▸ hs' ▸ habreast.rest
  cases hrest with
  | nil => exact .none
  | feed hr =>
      simp only [hsame]
      split
      · rename_i hfeed
        -- the second run takes in the carriage return, so the rest of it has to take in the feed
        exact h.behind (hbehind hfeed) (hpassed.trans (.cut hs')) (habreast.cut hs hr) hs
      · exact .none
  | char hx hr =>
      simp only []
      split
      · exact h.abreast (hpassed.trans (.step hx hs hs')) (habreast.step hx hr)
      · exact .none

theorem carries_one (hsame : accepts '\r' = accepts '\n')
    (hbehind : accepts '\n' = true → K.behind = true) :
    Carries solid cuts (.one accepts) K ⟨true, false, !accepts '\n'⟩ := by
  intro R c c' k k' _ h
  refine ⟨fun hpassed habreast => rel_one hsame hbehind h hpassed habreast, ?_, by simp, ?_⟩
  · intro _ d m hpassed hastride
    obtain ⟨s, s', hs, hm, hr⟩ := hastride.rest
    simp only [run, hs, hm]
    split
    · exact h.abreast (hpassed.trans (.step (by decide) hs hm)) (hastride.step hr)
    · exact .none
  · intro hshut d m _ hastride
    obtain ⟨s, s', hs, hm, -⟩ := hastride.rest
    have hfeed : accepts '\n' = false := by simpa using hshut
    simp [run, hs, hm, hfeed]

private theorem rel_runMany (hsame : accepts '\r' = accepts '\n')
    (hbetween : accepts '\n' = true → K.between = true) (h : Follows cuts R K c c' k k')
    (hs : d.rest = s) (hs' : d'.rest = s') (hpassed : Passed c c' d d')
    (habreast : Abreast cuts d d') :
    Option.Rel R (runMany accepts k s d) (runMany accepts k' s' d') := by
  have hrest : Returned s s' := hs ▸ hs' ▸ habreast.rest
  induction hrest generalizing d d' with
  | nil => exact h.abreast hpassed habreast
  | feed hr ih =>
      rw [runMany, runMany, runMany, hsame]
      split
      · rename_i hfeed
        have hcut := hpassed.trans (.cut hs')
        have hastride := habreast.cut hs hr
        -- between the two the second run meets what the first meets in front of the line feed
        refine rel_orElse_between ?_ (h.between (hbetween hfeed) hcut hastride)
          (h.abreast hpassed habreast)
        exact ih rfl rfl (hcut.trans (.step (by decide) hs rfl)) (hastride.step hr)
      · exact h.abreast hpassed habreast
  | char hx hr ih =>
      rw [runMany, runMany]
      split
      · refine rel_orElse ?_ (h.abreast hpassed habreast)
        exact ih rfl rfl (hpassed.trans (.step hx hs hs')) (habreast.step hx hr)
      · exact h.abreast hpassed habreast

/-- A run of characters that goes over line feeds. -/
theorem carries_many_over (hsame : accepts '\r' = true) (hfeed : accepts '\n' = true)
    (hbetween : K.between = true) :
    Carries solid cuts (.many accepts) K ⟨true, K.shut, false⟩ := by
  intro R c c' k k' _ h
  have hrun {d d' : Cursor} (hpassed : Passed c c' d d') (habreast : Abreast cuts d d') :
      Option.Rel R (runMany accepts k d.rest d) (runMany accepts k' d'.rest d') :=
    rel_runMany (hsame.trans hfeed.symm) (fun _ => hbetween) h rfl rfl hpassed habreast
  refine ⟨hrun, ?_, ?_, by simp⟩
  · intro _ d m hpassed hastride
    obtain ⟨s, s', hs, hm, hr⟩ := hastride.rest
    simp only [run, hs, hm, runMany, hfeed, if_true]
    refine rel_orElse ?_ (h.between hbetween hpassed hastride)
    exact hrun (hpassed.trans (.step (by decide) hs hm)) (hastride.step hr)
  · intro hshut d m s hpassed hastride hs
    obtain ⟨_, s', hs', hm, hr⟩ := hastride.rest
    obtain rfl := (List.cons.inj (hs.symm.trans hs')).2
    have hmore := hrun (hpassed.trans (.step (by decide) hs hm)) (hastride.step hr)
    simpa [run, hm, runMany, hfeed, (h.shut hshut hpassed hastride).2] using hmore

/-- A run of characters that stops at line feeds. -/
theorem carries_many_within (hreturn : accepts '\r' = false) (hfeed : accepts '\n' = false) :
    Carries solid cuts (.many accepts) K ⟨K.between, false, K.shut⟩ := by
  intro R c c' k k' _ h
  have hstop {d m : Cursor} (hastride : Astride cuts d m) :
      (Pattern.many accepts).run d k = k d ∧ (Pattern.many accepts).run m k' = k' m := by
    obtain ⟨s, s', hs, hm, -⟩ := hastride.rest
    simp [run, hs, hm, runMany, hfeed]
  refine ⟨fun hpassed habreast => ?_, ?_, by simp, ?_⟩
  · exact rel_runMany (hreturn.trans hfeed.symm) (by simp [hfeed]) h rfl rfl hpassed habreast
  · intro hbetween d m hpassed hastride
    rw [(hstop hastride).1, (hstop hastride).2]
    exact h.between hbetween hpassed hastride
  · intro hshut d m hpassed hastride
    rw [(hstop hastride).1, (hstop hastride).2]
    exact h.shut hshut hpassed hastride

private theorem rel_runFew (hsame : accepts '\r' = accepts '\n')
    (hbetween : accepts '\n' = true → K.between = true) (h : Follows cuts R K c c' k k')
    (hs : d.rest = s) (hs' : d'.rest = s') (hpassed : Passed c c' d d')
    (habreast : Abreast cuts d d') :
    Option.Rel R (runFew accepts k s d) (runFew accepts k' s' d') := by
  have hrest : Returned s s' := hs ▸ hs' ▸ habreast.rest
  induction hrest generalizing d d' with
  | nil => exact h.abreast hpassed habreast
  | feed hr ih =>
      rw [runFew, runFew, runFew, hsame]
      split
      · rename_i hfeed
        have hcut := hpassed.trans (.cut hs')
        have hastride := habreast.cut hs hr
        have hbetween := h.between (hbetween hfeed) hcut hastride
        -- what the first run does not meet in front of the line feed is not met between the two
        refine rel_orElse_in_vain (h.abreast hpassed habreast)
          (fun hnone => eq_none_of_rel (hnone ▸ hbetween)) ?_
        exact ih rfl rfl (hcut.trans (.step (by decide) hs rfl)) (hastride.step hr)
      · exact rel_orElse (h.abreast hpassed habreast) .none
  | char hx hr ih =>
      rw [runFew, runFew]
      refine rel_orElse (h.abreast hpassed habreast) ?_
      split
      · exact ih rfl rfl (hpassed.trans (.step hx hs hs')) (habreast.step hx hr)
      · exact .none

theorem carries_few_over (hsame : accepts '\r' = true) (hfeed : accepts '\n' = true)
    (hbetween : K.between = true) :
    Carries solid cuts (.few accepts) K ⟨true, false, false⟩ := by
  intro R c c' k k' _ h
  have hrun {d d' : Cursor} (hpassed : Passed c c' d d') (habreast : Abreast cuts d d') :
      Option.Rel R (runFew accepts k d.rest d) (runFew accepts k' d'.rest d') :=
    rel_runFew (hsame.trans hfeed.symm) (fun _ => hbetween) h rfl rfl hpassed habreast
  refine ⟨hrun, fun _ d m hpassed hastride => ?_, by simp, by simp⟩
  obtain ⟨s, s', hs, hm, hr⟩ := hastride.rest
  simp only [run, hs, hm, runFew, hfeed, if_true]
  refine rel_orElse (h.between hbetween hpassed hastride) ?_
  exact hrun (hpassed.trans (.step (by decide) hs hm)) (hastride.step hr)

theorem carries_few_within (hreturn : accepts '\r' = false) (hfeed : accepts '\n' = false) :
    Carries solid cuts (.few accepts) K ⟨K.between, false, K.shut⟩ := by
  intro R c c' k k' _ h
  have hstop {d m : Cursor} (hastride : Astride cuts d m) :
      (Pattern.few accepts).run d k = k d ∧ (Pattern.few accepts).run m k' = k' m := by
    obtain ⟨s, s', hs, hm, -⟩ := hastride.rest
    simp [run, hs, hm, runFew, hfeed]
  refine ⟨fun hpassed habreast => ?_, ?_, by simp, ?_⟩
  · exact rel_runFew (hreturn.trans hfeed.symm) (by simp [hfeed]) h rfl rfl hpassed habreast
  · intro hbetween d m hpassed hastride
    rw [(hstop hastride).1, (hstop hastride).2]
    exact h.between hbetween hpassed hastride
  · intro hshut d m hpassed hastride
    rw [(hstop hastride).1, (hstop hastride).2]
    exact h.shut hshut hpassed hastride

/-! ## Combinations -/

theorem carries_empty : Carries solid cuts .empty K K := fun _ _ _ _ _ _ h => h

theorem carries_seq {A : Ahead} (hp : Carries solid cuts p A B) (hq : Carries solid cuts q K A) :
    Carries solid cuts (.seq p q) K B :=
  fun _ _ _ _ _ hsolid h => hp hsolid (hq hsolid h)

theorem carries_alt {A : Ahead} (hp : Carries solid cuts p K A) (hq : Carries solid cuts q K B) :
    Carries solid cuts (.alt p q) K
      ⟨A.between && B.between, A.behind && B.behind, A.shut && B.shut⟩ := by
  intro R c c' k k' hsolid h
  have hfirst := hp hsolid h
  have hsecond := hq hsolid h
  refine ⟨fun hpassed habreast => ?_, fun hboth _ _ hpassed hastride => ?_,
    fun hboth _ _ _ hpassed hastride hs => ?_, fun hboth _ _ hpassed hastride => ?_⟩
  · exact rel_orElse (hfirst.abreast hpassed habreast) (hsecond.abreast hpassed habreast)
  · obtain ⟨hA, hB⟩ := Bool.and_eq_true_iff.mp hboth
    exact rel_orElse (hfirst.between hA hpassed hastride) (hsecond.between hB hpassed hastride)
  · obtain ⟨hA, hB⟩ := Bool.and_eq_true_iff.mp hboth
    exact rel_orElse (hfirst.behind hA hpassed hastride hs) (hsecond.behind hB hpassed hastride hs)
  · obtain ⟨hA, hB⟩ := Bool.and_eq_true_iff.mp hboth
    have hA := hfirst.shut hA hpassed hastride
    have hB := hsecond.shut hB hpassed hastride
    simp only [run, hA.1, hA.2, hB.1, hB.2]
    exact ⟨rfl, rfl⟩

/-- A test that looks back can tell a carriage return from what stands in front of it. -/
private theorem carries_test (test : Cursor → Prop) [DecidablePred test]
    (hrun : ∀ d k, p.run d k = if test d then k d else none)
    (htest : ∀ {d d'}, Abreast cuts d d' → (test d' ↔ test d)) :
    Carries solid cuts p K ⟨K.shut, false, K.shut⟩ := by
  intro R c c' k k' _ h
  have hnone (hshut : K.shut = true) {d m : Cursor} (hpassed : Passed c c' d m)
      (hastride : Astride cuts d m) : p.run d k = none ∧ p.run m k' = none := by
    obtain ⟨hd, hm⟩ := h.shut hshut hpassed hastride
    simp [hrun, hd, hm]
  refine ⟨fun hpassed habreast => ?_, fun hshut _ _ hpassed hastride => ?_, by simp,
    fun hshut _ _ hpassed hastride => hnone hshut hpassed hastride⟩
  · simp only [hrun, htest habreast]
    split
    · exact h.abreast hpassed habreast
    · exact .none
  · obtain ⟨hd, hm⟩ := hnone hshut hpassed hastride
    simp only [hd, hm]
    exact .none

theorem carries_wordEdge : Carries solid cuts .wordEdge K ⟨K.shut, false, K.shut⟩ := by
  refine carries_test _ (fun _ _ => rfl) fun {d d'} h => ?_
  have hbefore : d'.beforeIsWord = d.beforeIsWord := by
    rw [beforeIsWord, beforeIsWord, h.before]
  have hnext : d'.nextIsWord = d.nextIsWord := by
    have hrest := h.rest
    rw [nextIsWord, nextIsWord]
    generalize d.rest = s at hrest
    generalize d'.rest = s' at hrest
    cases hrest <;> rfl
  rw [hbefore, hnext]

theorem carries_lineStart : Carries solid cuts .lineStart K ⟨K.shut, false, K.shut⟩ := by
  refine carries_test _ (fun _ _ => rfl) fun h => ?_
  rw [h.before]

theorem carries_notBehind : Carries solid cuts (.notBehind accepts) K ⟨K.shut, false, K.shut⟩ := by
  refine carries_test (fun d => d.before.any accepts = false) (fun d k => ?_) fun h => ?_
  · rw [run]
    cases d.before.any accepts <;> rfl
  · rw [h.before]

theorem carries_textEnd : Carries true cuts .textEnd K ⟨true, false, true⟩ := by
  intro R c c' k k' hsolid h
  have hnone {d m : Cursor} (hpassed : Passed c c' d m) (hastride : Astride cuts d m) :
      run .textEnd d k = none ∧ run .textEnd m k' = none := by
    obtain ⟨s, s', hs, hm, hr⟩ := hastride.rest
    have hlast := solid_later (hsolid rfl) hpassed
    have hne : s ≠ [] := by
      rintro rfl
      simp [hs] at hlast
    have hne' : s' ≠ [] := fun hnil => hne (hr.eq_nil_iff.mpr hnil)
    simp [run, hs, hm, hne, hne']
  refine ⟨fun {d d'} hpassed habreast => ?_, fun _ _ _ hpassed hastride => ?_, by simp,
    fun _ _ _ hpassed hastride => hnone hpassed hastride⟩
  · have hlast := solid_later (hsolid rfl) hpassed
    have hd : ¬ d.rest = ['\n'] := by
      intro hrest
      simp [hrest] at hlast
    have hd' : ¬ d'.rest = ['\n'] := by
      intro hrest
      rw [← habreast.rest.getLast?_eq, hrest] at hlast
      simp at hlast
    simp only [run, hd, hd', or_false, habreast.rest.eq_nil_iff]
    split
    · exact h.abreast hpassed habreast
    · exact .none
  · obtain ⟨hd, hm⟩ := hnone hpassed hastride
    simp only [hd, hm]
    exact .none

/-- Without interest in where a run ends, every place is as good as any other. -/
theorem follows_some : Follows cuts (fun _ _ => True) ⟨true, true, false⟩ c c' some some :=
  ⟨fun _ _ => .some trivial, fun _ _ _ _ _ => .some trivial, fun _ _ _ _ _ _ _ => .some trivial,
    by simp⟩

theorem carries_notAhead (hp : Carries solid cuts p ⟨true, true, false⟩ B) :
    Carries solid cuts (.notAhead p) K ⟨K.shut || (B.between && K.between), false, K.shut⟩ := by
  intro R c c' k k' hsolid h
  have hahead : Follows cuts (fun _ _ => True) B c c' (fun d => p.run d some)
      fun d => p.run d some := hp hsolid follows_some
  have hnone (hshut : K.shut = true) {d m : Cursor} (hpassed : Passed c c' d m)
      (hastride : Astride cuts d m) :
      run (.notAhead p) d k = none ∧ run (.notAhead p) m k' = none := by
    obtain ⟨hd, hm⟩ := h.shut hshut hpassed hastride
    simp [run, hd, hm]
  refine ⟨fun hpassed habreast => ?_, fun hbetween d m hpassed hastride => ?_, by simp,
    fun hshut _ _ hpassed hastride => hnone hshut hpassed hastride⟩
  · simp only [run, isSome_eq_of_rel (hahead.abreast hpassed habreast)]
    split
    · exact .none
    · exact h.abreast hpassed habreast
  · rcases Bool.or_eq_true_iff.mp hbetween with hshut | hboth
    · obtain ⟨hd, hm⟩ := hnone hshut hpassed hastride
      simp only [hd, hm]
      exact .none
    · obtain ⟨hB, hK⟩ := Bool.and_eq_true_iff.mp hboth
      simp only [run, isSome_eq_of_rel (hahead.between hB hpassed hastride)]
      split
      · exact .none
      · exact h.between hK hpassed hastride

/-! ## Marks -/

/-- What has to be known behind a mark, so that `K` is known behind its name. -/
def Ahead.marked (cuts : Bool) (K : Ahead) : Ahead :=
  ⟨cuts && K.between, false, cuts && K.shut⟩

private theorem follows_mark (name : String) (h : Follows cuts R K c c' k k')
    (hpassed : Passed c c' d d') (hrest : Returned d.rest d'.rest) :
    Follows cuts R (K.marked (cuts name)) d d' (fun e => k (e.mark name (d.upTo e)))
      fun e => k' (e.mark name (d'.upTo e)) := by
  have hcut (hcuts : cuts name = true) {e m : Cursor} (hmore : Passed d d' e m)
      (hastride : Astride cuts e m) :
      Astride cuts (e.mark name (d.upTo e)) (m.mark name (d'.upTo m)) := by
    obtain ⟨v, after', after⟩ := hmore
    refine ⟨hastride.rest, hastride.before, hastride.clear, .cons ⟨rfl, ?_⟩ hastride.marks⟩
    -- the second mark ends with the carriage return
    rw [after'.rest] at hrest
    simpa only [if_pos hcuts, upTo_past after', upTo_past after] using hrest.cut_of_append
  refine ⟨fun {e e'} hmore habreast => ?_, fun hbetween e m hmore hastride => ?_,
    by simp [Ahead.marked], fun hshut e m hmore hastride => ?_⟩
  · refine h.abreast ((hpassed.trans hmore).mark _ _ _)
      ⟨habreast.rest, habreast.before, habreast.clear, .cons ⟨rfl, ?_⟩ habreast.marks⟩
    obtain ⟨v, after', after⟩ := hmore
    rw [after'.rest] at hrest
    have hv := habreast.returned hrest after'
    simp only [upTo_past after', upTo_past after]
    split
    · exact .inl hv
    · exact hv
  · obtain ⟨hcuts, hK⟩ := Bool.and_eq_true_iff.mp hbetween
    exact h.between hK ((hpassed.trans hmore).mark _ _ _) (hcut hcuts hmore hastride)
  · obtain ⟨hcuts, hK⟩ := Bool.and_eq_true_iff.mp hshut
    exact h.shut hK ((hpassed.trans hmore).mark _ _ _) (hcut hcuts hmore hastride)

theorem carries_named {name : String} (hp : Carries solid cuts p (K.marked (cuts name)) B) :
    Carries solid cuts (.named name p) K ⟨B.between, false, B.shut⟩ := by
  intro R c c' k k' hsolid h
  have hmark {d d' : Cursor} (hpassed : Passed c c' d d') (hrest : Returned d.rest d'.rest) :
      Follows cuts R B d d' (fun e => p.run e fun e => k (e.mark name (d.upTo e)))
        fun e => p.run e fun e => k' (e.mark name (d'.upTo e)) :=
    hp (fun hs => solid_later (hsolid hs) hpassed) (follows_mark name h hpassed hrest)
  refine ⟨fun hpassed habreast => ?_, fun hB _ _ hpassed hastride => ?_, by simp,
    fun hB _ _ hpassed hastride => ?_⟩
  · exact (hmark hpassed habreast.rest).abreast (.refl _ _) habreast
  · exact (hmark hpassed hastride.returned).between hB (.refl _ _) hastride
  · exact (hmark hpassed hastride.returned).shut hB (.refl _ _) hastride

/-! ## Rounds -/

private theorem runRepeated_of_end (rounds : Nat) (hc : c.rest = []) :
    runRepeated p.run k rounds c = k c := by
  cases rounds with
  | zero => rfl
  | succ rounds =>
      have hround : p.run c (fun d => if c.offset < d.offset then runRepeated p.run k rounds d
          else none) = none := by
        refine run_eq_none fun u d after _ => ?_
        have hu : u = [] := (List.append_eq_nil_iff.mp (after.rest.symm.trans hc)).1
        simp [after.offset, hu]
      rw [runRepeated, hround]
      simp

private theorem length_lt_of_moved {u : Text} (h : d.After u e) (hmoved : d.offset < e.offset) :
    e.rest.length < d.rest.length := by
  have hlength := congrArg List.length h.rest
  rw [List.length_append] at hlength
  have hoffset := h.offset
  omega

private theorem exists_rounds {s : Text} {n : Nat} (hs : s ≠ []) (hn : s.length ≤ n) :
    ∃ rounds, n = rounds + 1 := by
  have := List.length_pos_iff.mpr hs
  exact ⟨n - 1, by omega⟩

/-- The rounds from two places on, as long as the second text has no more than `bound` characters
left. -/
private def RoundsAlike (cuts : String → Bool) (R : Cursor → Cursor → Prop) (p : Pattern)
    (L : Ahead) (c c' : Cursor) (k k' : Follow) (bound : Nat) : Prop :=
  ∀ {n n' : Nat} {d d' : Cursor}, Passed c c' d d' → d.rest.length ≤ n → d'.rest.length ≤ n' →
    d'.rest.length ≤ bound →
      (Abreast cuts d d' → Option.Rel R (runRepeated p.run k n d) (runRepeated p.run k' n' d')) ∧
        (Astride cuts d d' →
          (L.between = true →
            Option.Rel R (runRepeated p.run k n d) (runRepeated p.run k' n' d')) ∧
          (L.shut = true → runRepeated p.run k n d = none ∧ runRepeated p.run k' n' d' = none))

private theorem follows_round {L : Ahead} {bound n n' : Nat}
    (ih : RoundsAlike cuts R p L c c' k k' bound) (hpassed : Passed c c' d d')
    (hn : d.rest.length ≤ n + 1) (hn' : d'.rest.length ≤ n' + 1)
    (hbound : d'.rest.length ≤ bound + 1) :
    Follows cuts R ⟨L.shut, false, L.shut⟩ d d'
      (fun e => if d.offset < e.offset then runRepeated p.run k n e else none)
      fun e => if d'.offset < e.offset then runRepeated p.run k' n' e else none := by
  have hshut (hL : L.shut = true) {e m : Cursor} (hmore : Passed d d' e m)
      (hastride : Astride cuts e m) :
      (if d.offset < e.offset then runRepeated p.run k n e else none) = none ∧
        (if d'.offset < m.offset then runRepeated p.run k' n' m else none) = none := by
    obtain ⟨v, after', after⟩ := id hmore
    have hlength := length_lt_of_moved after
    have hlength' := length_lt_of_moved after'
    constructor
    · split
      · rename_i hmoved
        have hmoved' : d'.offset < m.offset := by
          have hfilter : (withoutReturns v).length ≤ v.length := List.length_filter_le ..
          have hoffset := after.offset
          have hoffset' := after'.offset
          omega
        have := hlength hmoved
        have := hlength' hmoved'
        exact (((ih (hpassed.trans hmore) (by omega) le_rfl (by omega)).2 hastride).2 hL).1
      · rfl
    · split
      · rename_i hmoved
        have := hlength' hmoved
        exact (((ih (hpassed.trans hmore) le_rfl (by omega) (by omega)).2 hastride).2 hL).2
      · rfl
  refine ⟨fun {e e'} hmore habreast => ?_, fun hL e m hmore hastride => ?_, by simp,
    fun hL e m hmore hastride => hshut hL hmore hastride⟩
  · obtain ⟨v, after', after⟩ := id hmore
    simp only [habreast.moved_iff hmore]
    split
    · rename_i hmoved
      have := length_lt_of_moved after hmoved
      have := length_lt_of_moved after' ((habreast.moved_iff hmore).mpr hmoved)
      exact (ih (hpassed.trans hmore) (by omega) (by omega) (by omega)).1 habreast
    · exact .none
  · obtain ⟨he, hm⟩ := hshut hL hmore hastride
    rw [he, hm]
    exact .none

private theorem roundsAlike {sh : Bool} (hsolid : solid = true → c.rest.getLast? ≠ some '\n')
    (h : Follows cuts R K c c' k k') (hp : Carries solid cuts p ⟨sh, false, sh⟩ B)
    (hsh : sh = true → B.shut = true ∧ K.shut = true) (bound : Nat) :
    RoundsAlike cuts R p ⟨(B.between && K.between) || sh, false, sh⟩ c c' k k' bound := by
  -- induction on the characters left: an empty round ends the rounds
  induction bound with
  | zero =>
      intro n n' d d' hpassed hn hn' hbound
      have hend' : d'.rest = [] := List.length_eq_zero_iff.mp (by omega)
      refine ⟨fun habreast => ?_, fun hastride => ?_⟩
      · have hend : d.rest = [] := habreast.rest.eq_nil_iff.mpr hend'
        rw [runRepeated_of_end n hend, runRepeated_of_end n' hend']
        exact h.abreast hpassed habreast
      · obtain ⟨s, s', -, hm, -⟩ := hastride.rest
        simp [hm] at hend'
  | succ bound ih =>
      intro n n' d d' hpassed hn hn' hbound
      have hround (n n' : Nat) (hn : d.rest.length ≤ n + 1) (hn' : d'.rest.length ≤ n' + 1) :=
        hp (fun hs => solid_later (hsolid hs) hpassed) (follows_round ih hpassed hn hn' hbound)
      refine ⟨fun habreast => ?_, fun hastride => ?_⟩
      · by_cases hend : d.rest = []
        · have hend' : d'.rest = [] := habreast.rest.eq_nil_iff.mp hend
          rw [runRepeated_of_end n hend, runRepeated_of_end n' hend']
          exact h.abreast hpassed habreast
        · have hend' : d'.rest ≠ [] := fun hnil => hend (habreast.rest.eq_nil_iff.mpr hnil)
          obtain ⟨n, rfl⟩ := exists_rounds hend hn
          obtain ⟨n', rfl⟩ := exists_rounds hend' hn'
          exact rel_orElse ((hround n n' hn hn').abreast (.refl _ _) habreast)
            (h.abreast hpassed habreast)
      · obtain ⟨s, s', hs, hm, -⟩ := hastride.rest
        obtain ⟨n, rfl⟩ := exists_rounds (by simp [hs]) hn
        obtain ⟨n', rfl⟩ := exists_rounds (by simp [hm]) hn'
        have hfirst := hround n n' hn hn'
        have hnone (hL : sh = true) : runRepeated p.run k (n + 1) d = none ∧
            runRepeated p.run k' (n' + 1) d' = none := by
          obtain ⟨hB, hK⟩ := hsh hL
          obtain ⟨hd, hd'⟩ := hfirst.shut hB (.refl _ _) hastride
          obtain ⟨hk, hk'⟩ := h.shut hK hpassed hastride
          rw [runRepeated, runRepeated, hd, hd', hk, hk']
          exact ⟨rfl, rfl⟩
        refine ⟨fun hL => ?_, hnone⟩
        rcases Bool.or_eq_true_iff.mp hL with hboth | hL
        · obtain ⟨hB, hK⟩ := Bool.and_eq_true_iff.mp hboth
          exact rel_orElse (hfirst.between hB (.refl _ _) hastride)
            (h.between hK hpassed hastride)
        · rw [(hnone hL).1, (hnone hL).2]
          exact .none

theorem carries_repeated {sh : Bool} (hp : Carries solid cuts p ⟨sh, false, sh⟩ B)
    (hsh : sh = true → B.shut = true ∧ K.shut = true) :
    Carries solid cuts (.repeated p) K ⟨(B.between && K.between) || sh, false, sh⟩ := by
  intro R c c' k k' hsolid h
  have hrounds := fun {d d' : Cursor} (hpassed : Passed c c' d d') =>
    roundsAlike hsolid h hp hsh d'.rest.length hpassed le_rfl le_rfl le_rfl
  refine ⟨fun hpassed habreast => (hrounds hpassed).1 habreast,
    fun hL _ _ hpassed hastride => ((hrounds hpassed).2 hastride).1 hL, by simp,
    fun hL _ _ hpassed hastride => ((hrounds hpassed).2 hastride).2 hL⟩

/-! ## From the end of a pattern to its beginning -/

/-- A run of characters takes in line breaks as a whole or stops at them. -/
private def aheadOfRun (accepts : Char → Bool) (behind : Bool) (K : Ahead) : Option Ahead :=
  if accepts '\r' && accepts '\n' && K.between then some ⟨true, behind, false⟩
  else if accepts '\r' || accepts '\n' then none
  else some ⟨K.between, false, K.shut⟩

/-- What is known in front of a pattern if `K` is known behind it. A pattern that takes a carriage
return for something else than a part of its line feed has no answer. -/
def ahead (solid : Bool) (cuts : String → Bool) : Pattern → Ahead → Option Ahead
  | .empty, K => some K
  | .one accepts, K =>
    if accepts '\r' == accepts '\n' && (!accepts '\n' || K.behind) then
      some ⟨true, false, !accepts '\n'⟩
    else none
  | .many accepts, K => aheadOfRun accepts K.shut K
  | .few accepts, K => aheadOfRun accepts false K
  | .seq p q, K => (ahead solid cuts q K).bind (ahead solid cuts p)
  | .alt p q, K =>
    (ahead solid cuts p K).bind fun A => (ahead solid cuts q K).map fun B =>
      ⟨A.between && B.between, A.behind && B.behind, A.shut && B.shut⟩
  | .repeated p, K =>
    match ahead solid cuts p ⟨K.shut, false, K.shut⟩ with
    | some B =>
      if !K.shut || B.shut then some ⟨(B.between && K.between) || K.shut, false, K.shut⟩ else none
    | none => none
  | .wordEdge, K => some ⟨K.shut, false, K.shut⟩
  | .lineStart, K => some ⟨K.shut, false, K.shut⟩
  | .textEnd, _ => if solid then some ⟨true, false, true⟩ else none
  | .notAhead p, K =>
    (ahead solid cuts p ⟨true, true, false⟩).map fun B =>
      ⟨K.shut || (B.between && K.between), false, K.shut⟩
  | .notBehind _, K => some ⟨K.shut, false, K.shut⟩
  | .named name p, K =>
    (ahead solid cuts p (K.marked (cuts name))).map fun B => ⟨B.between, false, B.shut⟩

private theorem aheadOfRun_cases {behind : Bool} (h : aheadOfRun accepts behind K = some B) :
    (accepts '\r' = true ∧ accepts '\n' = true ∧ K.between = true ∧ B = ⟨true, behind, false⟩) ∨
      (accepts '\r' = false ∧ accepts '\n' = false ∧ B = ⟨K.between, false, K.shut⟩) := by
  rw [aheadOfRun] at h
  split at h
  · rename_i hover
    simp only [Bool.and_eq_true] at hover
    exact .inl ⟨hover.1.1, hover.1.2, hover.2, (Option.some.inj h).symm⟩
  · split at h
    · simp at h
    · rename_i hwithin
      rw [Bool.or_eq_true, not_or, Bool.not_eq_true, Bool.not_eq_true] at hwithin
      exact .inr ⟨hwithin.1, hwithin.2, (Option.some.inj h).symm⟩

theorem carries_of_ahead (h : p.ahead solid cuts K = some B) : Carries solid cuts p K B := by
  induction p generalizing K B with
  | empty =>
      cases h
      exact carries_empty
  | one accepts =>
      rw [ahead] at h
      split at h
      · rename_i hone
        simp only [Bool.and_eq_true, beq_iff_eq, Bool.or_eq_true, Bool.not_eq_true'] at hone
        cases h
        refine carries_one hone.1 fun hfeed => ?_
        simpa [hfeed] using hone.2
      · simp at h
  | many accepts =>
      rcases aheadOfRun_cases h with ⟨hreturn, hfeed, hK, rfl⟩ | ⟨hreturn, hfeed, rfl⟩
      · exact carries_many_over hreturn hfeed hK
      · exact carries_many_within hreturn hfeed
  | few accepts =>
      rcases aheadOfRun_cases h with ⟨hreturn, hfeed, hK, rfl⟩ | ⟨hreturn, hfeed, rfl⟩
      · exact carries_few_over hreturn hfeed hK
      · exact carries_few_within hreturn hfeed
  | seq p q ihp ihq =>
      obtain ⟨A, hA, hB⟩ := Option.bind_eq_some_iff.mp h
      exact carries_seq (ihp hB) (ihq hA)
  | alt p q ihp ihq =>
      obtain ⟨A, hA, h⟩ := Option.bind_eq_some_iff.mp h
      obtain ⟨B, hB, rfl⟩ := Option.map_eq_some_iff.mp h
      exact carries_alt (ihp hA) (ihq hB)
  | repeated p ih =>
      rw [ahead] at h
      split at h
      · rename_i A hA
        split at h
        · rename_i hshut
          cases h
          refine carries_repeated (ih hA) fun hK => ⟨?_, hK⟩
          simpa [hK] using hshut
        · simp at h
      · simp at h
  | wordEdge =>
      cases h
      exact carries_wordEdge
  | lineStart =>
      cases h
      exact carries_lineStart
  | textEnd =>
      cases solid with
      | false => simp [ahead] at h
      | true =>
          cases h
          exact carries_textEnd
  | notAhead p ih =>
      obtain ⟨A, hA, rfl⟩ := Option.map_eq_some_iff.mp h
      exact carries_notAhead (ih hA)
  | notBehind accepts =>
      cases h
      exact carries_notBehind
  | named name p ih =>
      obtain ⟨A, hA, rfl⟩ := Option.map_eq_some_iff.mp h
      exact carries_named (ih hA)

/-- A list of patterns, of which only the first are read from their end. -/
theorem carries_append (ps qs : List Pattern) {A : Ahead} (hqs : Carries solid cuts (all qs) K A)
    (hps : (all ps).ahead solid cuts A = some B) : Carries solid cuts (all (ps ++ qs)) K B := by
  induction ps generalizing B with
  | nil =>
      cases hps
      exact hqs
  | cons p ps ih =>
      obtain ⟨A', hA', hB⟩ := Option.bind_eq_some_iff.mp hps
      exact carries_seq (carries_of_ahead hB) (ih hA')

/-- A line feed with or without a carriage return, spelled out. -/
theorem carries_lineBreak {A : Ahead} (hq : Carries solid cuts q K A) :
    Carries solid cuts (.seq (option (char '\r')) (.seq (char '\n') q)) K
      ⟨true, false, false⟩ := by
  intro R c c' k k' hsolid h
  have hmore := hq hsolid h
  refine ⟨fun {d d'} hpassed habreast => ?_, fun _ d m hpassed hastride => ?_, by simp, by simp⟩
  · have hrest := habreast.rest
    generalize hs : d.rest = s at hrest
    generalize hs' : d'.rest = s' at hrest
    cases hrest with
    | nil => simp [run, option, char, hs, hs']
    | feed hr =>
        have hcut := hpassed.trans (.cut hs')
        have hrel := hmore.abreast (hcut.trans (.step (by decide) hs rfl))
          ((habreast.cut hs hr).step hr)
        simpa [run, option, char, hs, hs'] using hrel
    | @char x _ _ hx hr =>
        have hrel := hmore.abreast (hpassed.trans (.step hx hs hs')) (habreast.step hx hr)
        simp only [run, option, char, hs, hs', beq_iff_eq, hx, if_false]
        by_cases hfeed : x = '\n'
        · simpa [hfeed] using hrel
        · simp [hfeed]
  · obtain ⟨s, s', hs, hm, hr⟩ := hastride.rest
    have hrel := hmore.abreast (hpassed.trans (.step (by decide) hs hm)) (hastride.step hr)
    simpa [run, option, char, hs, hm] using hrel

end Pattern

end ProcCatalog
