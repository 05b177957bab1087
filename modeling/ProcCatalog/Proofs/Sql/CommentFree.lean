import ProcCatalog.Proofs.Text.Classes
import ProcCatalog.Sql.Comment

/-!
# Texts without comments

Nothing is stripped from a text in which no comment is marked. Where no block comment is open at
the end of a text, what follows is stripped by itself; so blanks behind a text add only blanks to
what is left of it.
-/

namespace ProcCatalog.Sql

/-! ## Marks -/

section

variable {x y c : Char} {s t : Text}

theorem pair_infix_cons :
    [x, y] <:+: c :: s ↔ (c = x ∧ s.head? = some y) ∨ [x, y] <:+: s := by
  rw [List.infix_cons_iff, List.cons_prefix_cons]
  cases s with
  | nil => simp
  | cons d s => simp [eq_comm (a := x), eq_comm (a := y)]

theorem pair_infix_append :
    [x, y] <:+: s ++ t ↔
      [x, y] <:+: s ∨ (s.getLast? = some x ∧ t.head? = some y) ∨ [x, y] <:+: t := by
  induction s with
  | nil => simp
  | cons c s ih =>
      rw [List.cons_append, pair_infix_cons, pair_infix_cons, ih]
      cases s with
      | nil => simp
      | cons d s => simp [or_assoc]

end

/-- Neither mark that opens a comment is made of these neighbours. -/
def Apart (x y : Char) : Prop := ¬ (x = '-' ∧ y = '-') ∧ ¬ (x = '/' ∧ y = '*')

instance Apart.decidable : DecidableRel Apart := fun _ _ => inferInstanceAs (Decidable (_ ∧ _))

/-- No mark that opens a comment occurs in the text. -/
def Unmarked (s : Text) : Prop := ¬ ['-', '-'] <:+: s ∧ ¬ ['/', '*'] <:+: s

instance : DecidablePred Unmarked := fun s =>
  inferInstanceAs (Decidable (¬ ['-', '-'] <:+: s ∧ ¬ ['/', '*'] <:+: s))

theorem isChain_apart_iff {s : Text} : s.IsChain Apart ↔ Unmarked s := by
  rw [List.isChain_iff_forall_rel_of_append_cons_cons]
  constructor
  · intro h
    constructor
    · rintro ⟨a, b, rfl⟩
      exact (h (List.append_assoc a _ b)).1 ⟨rfl, rfl⟩
    · rintro ⟨a, b, rfl⟩
      exact (h (List.append_assoc a _ b)).2 ⟨rfl, rfl⟩
  · rintro ⟨hline, hblock⟩ x y a b rfl
    constructor
    · rintro ⟨rfl, rfl⟩
      exact hline ⟨a, b, by simp⟩
    · rintro ⟨rfl, rfl⟩
      exact hblock ⟨a, b, by simp⟩

def blockComment (content : Text) : Text := '/' :: '*' :: (content ++ ['*', '/'])

def HoldsBlockComment (s : Text) : Prop := ∃ content, blockComment content <:+: s

theorem infix_of_holdsBlockComment {s : Text} (h : HoldsBlockComment s) : ['/', '*'] <:+: s := by
  obtain ⟨content, a, b, rfl⟩ := h
  exact ⟨a, content ++ (['*', '/'] ++ b), by simp [blockComment]⟩

theorem holdsBlockComment_cons {c : Char} {s : Text} :
    HoldsBlockComment (c :: s) ↔
      (c = '/' ∧ ∃ r, s = '*' :: r ∧ ['*', '/'] <:+: r) ∨ HoldsBlockComment s := by
  constructor
  · rintro ⟨content, a, b, h⟩
    cases a with
    | nil =>
        obtain ⟨rfl, rfl⟩ := List.cons.inj h
        exact .inl ⟨rfl, _, rfl, content, b, by simp⟩
    | cons d a =>
        obtain ⟨-, rfl⟩ := List.cons.inj h
        exact .inr ⟨content, a, b, rfl⟩
  · rintro (⟨rfl, _, rfl, content, b, rfl⟩ | ⟨content, a, b, rfl⟩)
    · exact ⟨content, [], b, by simp [blockComment]⟩
    · exact ⟨content, c :: a, b, rfl⟩

/-! ## Closing marks -/

section

variable {c : Char} {r s t : Text}

theorem afterClosing?_cons (h : ∀ u, c = '*' → r ≠ '/' :: u) :
    afterClosing? (c :: r) = afterClosing? r := by
  rw [afterClosing?]
  exact h

theorem afterClosing?_eq_none_iff : afterClosing? s = none ↔ ¬ ['*', '/'] <:+: s := by
  fun_induction afterClosing? s with
  | case1 => simp
  | case2 s => simp [pair_infix_cons]
  | case3 c s hopen ih =>
      have hhead : ¬ (c = '*' ∧ s.head? = some '/') := by
        rintro ⟨rfl, hs⟩
        obtain ⟨u, rfl⟩ := List.head?_eq_some_iff.mp hs
        exact hopen u rfl rfl
      rw [ih, pair_infix_cons]
      simp [hhead]

theorem afterClosing?_mark {content : Text} (h : ¬ ['*', '/'] <:+: content) (t : Text) :
    afterClosing? (content ++ '*' :: '/' :: t) = some t := by
  induction content with
  | nil => rfl
  | cons c content ih =>
      rw [pair_infix_cons, not_or] at h
      rw [List.cons_append, afterClosing?_cons, ih h.2]
      rintro u rfl hu
      cases content with
      | nil => exact absurd (List.cons.inj hu).1 (by decide)
      | cons d content => exact h.1 ⟨rfl, congrArg some (List.cons.inj hu).1⟩

theorem exists_of_afterClosing? (h : afterClosing? s = some t) :
    ∃ content, ¬ ['*', '/'] <:+: content ∧ s = content ++ '*' :: '/' :: t := by
  fun_induction afterClosing? s with
  | case1 => simp at h
  | case2 s =>
      cases h
      exact ⟨[], by simp, rfl⟩
  | case3 c s hopen ih =>
      obtain ⟨content, hcontent, rfl⟩ := ih h
      refine ⟨c :: content, ?_, rfl⟩
      rw [pair_infix_cons, not_or]
      refine ⟨?_, hcontent⟩
      rintro ⟨rfl, hhead⟩
      obtain ⟨u, rfl⟩ := List.head?_eq_some_iff.mp hhead
      exact hopen _ rfl rfl

end

/-! ## Equations -/

@[simp] theorem dropLineComments_nil : dropLineComments [] = [] := by
  rw [dropLineComments]

theorem dropBlockComments_closed {r t : Text} (h : afterClosing? r = some t) :
    dropBlockComments ('/' :: '*' :: r) = ' ' :: dropBlockComments t := by
  rw [dropBlockComments]
  split
  · rename_i u hu
    rw [h] at hu
    cases hu
    rfl
  · rename_i hu
    simp [h] at hu

theorem dropBlockComments_unclosed {r : Text} (h : afterClosing? r = none) :
    dropBlockComments ('/' :: '*' :: r) = '/' :: dropBlockComments ('*' :: r) := by
  rw [dropBlockComments]
  split
  · rename_i u hu
    simp [h] at hu
  · rfl

theorem dropBlockComments_cons {c : Char} {r : Text} (h : ∀ u, c = '/' → r ≠ '*' :: u) :
    dropBlockComments (c :: r) = c :: dropBlockComments r := by
  rw [dropBlockComments]
  exact h

theorem dropLineComments_open (r : Text) :
    dropLineComments ('-' :: '-' :: r) = dropLineComments (r.dropWhile (· != '\n')) := by
  rw [dropLineComments]

theorem dropLineComments_cons {c : Char} {r : Text} (h : ∀ u, c = '-' → r ≠ '-' :: u) :
    dropLineComments (c :: r) = c :: dropLineComments r := by
  rw [dropLineComments]
  exact h

/-! ## Nothing to strip -/

theorem dropBlockComments_eq_self {s : Text} (h : ¬ HoldsBlockComment s) :
    dropBlockComments s = s := by
  fun_induction dropBlockComments s with
  | case1 => rfl
  | case2 r t hclosed _ _ =>
      obtain ⟨content, -, rfl⟩ := exists_of_afterClosing? hclosed
      exact absurd (holdsBlockComment_cons.mpr (.inl ⟨rfl, _, rfl, content, t, by simp⟩)) h
  | case3 r _ ih =>
      rw [holdsBlockComment_cons, not_or] at h
      rw [ih h.2]
  | case4 c r _ ih =>
      rw [holdsBlockComment_cons, not_or] at h
      rw [ih h.2]

theorem dropLineComments_eq_self {s : Text} (h : ¬ ['-', '-'] <:+: s) :
    dropLineComments s = s := by
  fun_induction dropLineComments s with
  | case1 => rfl
  | case2 r _ _ => exact absurd (pair_infix_cons.mpr (.inl ⟨rfl, rfl⟩)) h
  | case3 c r _ ih =>
      rw [pair_infix_cons, not_or] at h
      rw [ih h.2]

theorem stripComments_eq_self {s : Text} (h : Unmarked s) : stripComments s = s := by
  have hblock : ¬ HoldsBlockComment s := fun hholds => h.2 (infix_of_holdsBlockComment hholds)
  rw [stripComments, dropBlockComments_eq_self hblock, dropLineComments_eq_self h.1]

/-! ## Joining unmarked texts -/

/-- An unmarked text behind which no mark can be completed. -/
structure Closed (s : Text) : Prop where
  chain : s.IsChain Apart
  last : ∀ x ∈ s.getLast?, x ≠ '-' ∧ x ≠ '/'

namespace Closed

theorem nil : Closed [] := ⟨.nil, by simp⟩

theorem append {s t : Text} (hs : Closed s) (ht : Closed t) : Closed (s ++ t) := by
  constructor
  · refine List.isChain_append.mpr ⟨hs.chain, ht.chain, fun x hx y _ => ?_⟩
    have := hs.last x hx
    simp [Apart, this]
  · intro x hx
    rw [List.getLast?_append] at hx
    cases hlast : t.getLast? with
    | none =>
        rw [hlast] at hx
        exact hs.last x (by simpa using hx)
    | some y =>
        rw [hlast] at hx
        obtain rfl : y = x := by simpa using hx
        exact ht.last y hlast

theorem flatten {ts : List Text} (h : ∀ t ∈ ts, Closed t) : Closed ts.flatten := by
  induction ts with
  | nil => exact nil
  | cons t ts ih =>
      rw [List.flatten_cons]
      exact (h t (by simp)).append (ih fun u hu => h u (by simp [hu]))

theorem flatMap {α : Type} {xs : List α} {f : α → Text} (h : ∀ x ∈ xs, Closed (f x)) :
    Closed (xs.flatMap f) := by
  rw [List.flatMap_def]
  refine flatten fun t ht => ?_
  obtain ⟨x, hx, rfl⟩ := List.mem_map.mp ht
  exact h x hx

theorem of_forall {s : Text} (h : ∀ x ∈ s, x ≠ '-' ∧ x ≠ '/') : Closed s := by
  constructor
  · refine List.isChain_iff_forall_rel_of_append_cons_cons.mpr fun x y a b hs => ?_
    have := h x (by simp [hs])
    simp [Apart, this]
  · intro x hx
    exact h x (List.mem_of_getLast? hx)

theorem of_all {s : Text} (h : s.all (fun c => c != '-' && c != '/') = true) : Closed s :=
  of_forall (by simpa using h)

theorem of_blanks {s : Text} (h : ∀ x ∈ s, Text.isBlank x = true) : Closed s := by
  refine of_forall fun x hx => ?_
  have hblank := h x hx
  constructor <;> rintro rfl <;> simp [Text.isBlank] at hblank

theorem unmarked {s : Text} (h : Closed s) : Unmarked s := isChain_apart_iff.mp h.chain

theorem of_unmarked_append {s : Text} (h : Unmarked s) {x : Char}
    (hx : x ≠ '-' ∧ x ≠ '/' ∧ x ≠ '*') : Closed (s ++ [x]) := by
  constructor
  · refine List.isChain_append.mpr ⟨isChain_apart_iff.mpr h, .singleton x, fun y _ z hz => ?_⟩
    obtain rfl : x = z := by simpa using hz
    simp [Apart, hx]
  · intro y hy
    obtain rfl : x = y := by simpa using hy
    exact ⟨hx.1, hx.2.1⟩

end Closed

/-! ## What follows a text -/

/-- A text and what follows it are rid of their block comments one by one, unless a mark goes over
both or a comment that is open in the first is closed in the second. -/
theorem dropBlockComments_append {s t : Text}
    (hnext : s.getLast? = some '/' → t.head? ≠ some '*')
    (hopen : ['/', '*'] <:+: dropBlockComments s →
      (s.getLast? = some '*' → t.head? ≠ some '/') ∧ ¬ ['*', '/'] <:+: t) :
    dropBlockComments (s ++ t) = dropBlockComments s ++ dropBlockComments t := by
  fun_induction dropBlockComments s with
  | case1 => rfl
  | case2 r u hclosed _ ih =>
      obtain ⟨content, hcontent, rfl⟩ := exists_of_afterClosing? hclosed
      have happend : afterClosing? (content ++ '*' :: '/' :: u ++ t) = some (u ++ t) := by
        rw [List.append_assoc]
        exact afterClosing?_mark hcontent (u ++ t)
      rw [List.cons_append, List.cons_append, dropBlockComments_closed happend]
      by_cases hu : u = []
      · subst hu
        rw [dropBlockComments]
        rfl
      · have hlast : ('/' :: '*' :: (content ++ '*' :: '/' :: u)).getLast? = u.getLast? := by
          rw [show '/' :: '*' :: (content ++ '*' :: '/' :: u) = blockComment content ++ u by
            simp [blockComment], List.getLast?_append_of_ne_nil _ hu]
        rw [hlast] at hnext hopen
        rw [ih hnext fun h => hopen (List.infix_cons h)]
        rfl
  | case3 r hunclosed ih =>
      rw [List.getLast?_cons_cons] at hnext hopen
      have hmark : ['/', '*'] <:+: '/' :: dropBlockComments ('*' :: r) := by
        rw [dropBlockComments_cons (by simp)]
        exact pair_infix_cons.mpr (.inl ⟨rfl, rfl⟩)
      obtain ⟨hacross, hbehind⟩ := hopen hmark
      have hunclosed' : afterClosing? (r ++ t) = none := by
        rw [afterClosing?_eq_none_iff, pair_infix_append]
        rw [afterClosing?_eq_none_iff] at hunclosed
        rintro (h | ⟨hlast, hhead⟩ | h)
        · exact hunclosed h
        · exact hacross (by simp [List.getLast?_cons, hlast]) hhead
        · exact hbehind h
      rw [List.cons_append, List.cons_append, dropBlockComments_unclosed hunclosed']
      exact congrArg ('/' :: ·) (ih hnext fun _ => ⟨hacross, hbehind⟩)
  | case4 c r hopens ih =>
      cases r with
      | nil =>
          rw [dropBlockComments, List.cons_append, List.nil_append, dropBlockComments_cons]
          · rfl
          · rintro u rfl rfl
            exact hnext rfl rfl
      | cons d r =>
          rw [List.getLast?_cons_cons] at hnext hopen
          rw [List.cons_append, dropBlockComments_cons, ih hnext fun h => hopen (List.infix_cons h)]
          · rfl
          · rintro u hc hr
            exact hopens _ hc (congrArg (· :: r) (List.cons.inj hr).1)

theorem dropBlockComments_append_blanks (s : Text) {t : Text}
    (ht : ∀ x ∈ t, Text.isBlank x = true) :
    dropBlockComments (s ++ t) = dropBlockComments s ++ t := by
  have hstar : '*' ∉ t := fun h => absurd (ht _ h) (by decide)
  have hslash : '/' ∉ t := fun h => absurd (ht _ h) (by decide)
  have hself : dropBlockComments t = t :=
    dropBlockComments_eq_self fun h => hslash ((infix_of_holdsBlockComment h).subset (by simp))
  rw [dropBlockComments_append, hself]
  · exact fun _ h => hstar (List.mem_of_head? h)
  · refine fun _ => ⟨fun _ h => hslash (List.mem_of_head? h), fun h => ?_⟩
    exact hslash (h.subset (by simp))

theorem dropLineComments_append {s t : Text} (hs : ¬ ['-', '-'] <:+: s)
    (hnext : s.getLast? = some '-' → t.head? ≠ some '-') :
    dropLineComments (s ++ t) = s ++ dropLineComments t := by
  induction s with
  | nil => rfl
  | cons c s ih =>
      rw [pair_infix_cons, not_or] at hs
      have hstep : dropLineComments (s ++ t) = s ++ dropLineComments t := by
        cases s with
        | nil => rfl
        | cons d s => exact ih hs.2 (by rwa [List.getLast?_cons_cons] at hnext)
      rw [List.cons_append, dropLineComments_cons, hstep]
      · rfl
      · rintro u rfl hu
        cases s with
        | nil => exact hnext rfl (by simp_all)
        | cons d s => exact hs.1 ⟨rfl, congrArg some (List.cons.inj hu).1⟩

theorem stripComments_append {s : Text} (hs : Closed s) (t : Text) :
    stripComments (s ++ t) = s ++ stripComments t := by
  obtain ⟨hdash, hmark⟩ := hs.unmarked
  have hself : dropBlockComments s = s :=
    dropBlockComments_eq_self fun hholds => hmark (infix_of_holdsBlockComment hholds)
  have hblock : dropBlockComments (s ++ t) = s ++ dropBlockComments t := by
    rw [dropBlockComments_append, hself]
    · exact fun hlast => absurd rfl (hs.last '/' hlast).2
    · exact fun hopen => absurd (hself ▸ hopen) hmark
  rw [stripComments, hblock, dropLineComments_append hdash]
  · rfl
  · exact fun hlast => absurd rfl (hs.last '-' hlast).1

theorem exists_dropLineComments_append (s : Text) {t : Text}
    (ht : ∀ x ∈ t, Text.isBlank x = true) :
    ∃ u, (∀ x ∈ u, Text.isBlank x = true) ∧
      dropLineComments (s ++ t) = dropLineComments s ++ u := by
  have hself : ∀ v : Text, v <:+ t → dropLineComments v = v := by
    intro v hv
    exact dropLineComments_eq_self (Closed.of_blanks fun x hx => ht x (hv.subset hx)).unmarked.1
  fun_induction dropLineComments s with
  | case1 => exact ⟨t, ht, hself t (List.suffix_refl t)⟩
  | case2 r _ ih =>
      rw [List.cons_append, List.cons_append, dropLineComments_open, List.dropWhile_append]
      split
      · rename_i hr
        refine ⟨t.dropWhile (· != '\n'), ?_, ?_⟩
        · exact fun x hx => ht x ((List.dropWhile_suffix _).subset hx)
        · rw [hself _ (List.dropWhile_suffix _), List.isEmpty_iff.mp hr, dropLineComments_nil]
          rfl
      · exact ih
  | case3 c r hopen ih =>
      obtain ⟨u, hu, ih⟩ := ih
      refine ⟨u, hu, ?_⟩
      rw [List.cons_append, dropLineComments_cons, ih]
      · rfl
      · rintro v rfl hr
        cases r with
        | nil =>
            have hdash := ht '-' (by simp_all)
            simp [Text.isBlank] at hdash
        | cons y r =>
            obtain ⟨rfl, -⟩ := List.cons.inj hr
            exact hopen _ rfl rfl

/-- Blanks behind a text change nothing but the end of what is left of it. -/
theorem trim_stripComments_append (s : Text) {t : Text}
    (ht : ∀ x ∈ t, Text.isBlank x = true) :
    Text.trim (stripComments (s ++ t)) = Text.trim (stripComments s) := by
  obtain ⟨u, hu, hstrip⟩ := exists_dropLineComments_append (dropBlockComments s) ht
  rw [stripComments, dropBlockComments_append_blanks s ht, hstrip, Text.trim_append_blanks _ hu]
  rfl

end ProcCatalog.Sql
