import ProcCatalog.Proofs.Text.Classes
import ProcCatalog.Text.Pattern

/-!
# What a pattern spans

`Spans p before u rest` tells that a pattern takes in exactly `u` where `before` stands in front of
it and `rest` behind it, whatever it prefers. Running a pattern finds one of its spans, and finds
one whenever there is one from which the continuation succeeds. A search stops at the first place
where a span begins.
-/

namespace ProcCatalog

/-- The character before a place that lies behind some characters. -/
def lastOr : Option Char → Text → Option Char
  | before, [] => before
  | _, x :: u => lastOr (some x) u

@[simp] theorem lastOr_nil (before : Option Char) : lastOr before [] = before := rfl

@[simp] theorem lastOr_cons (before : Option Char) (x : Char) (u : Text) :
    lastOr before (x :: u) = lastOr (some x) u := rfl

@[simp] theorem lastOr_append (before : Option Char) (u v : Text) :
    lastOr before (u ++ v) = lastOr (lastOr before u) v := by
  induction u generalizing before with
  | nil => rfl
  | cons x u ih => exact ih (some x)

theorem lastOr_none (u : Text) : lastOr none u = u.getLast? := by
  induction u using List.reverseRecOn with
  | nil => rfl
  | append_singleton u x => simp

theorem lastOr_of_ne_nil (before : Option Char) {u : Text} (hne : u ≠ []) :
    lastOr before u = u.getLast? := by
  obtain ⟨x, u, rfl⟩ := List.exists_cons_of_ne_nil hne
  exact lastOr_none (x :: u)

/-- The second place lies behind the first by the characters of `u`; marks aside. -/
structure Cursor.After (c : Cursor) (u : Text) (d : Cursor) : Prop where
  rest : c.rest = u ++ d.rest
  before : d.before = lastOr c.before u
  offset : d.offset = c.offset + u.length

namespace Cursor.After

theorem refl (c : Cursor) : c.After [] c := ⟨rfl, rfl, rfl⟩

theorem step {c : Cursor} {x : Char} {s : Text} (h : c.rest = x :: s) :
    c.After [x] (c.step x s) := ⟨h, rfl, rfl⟩

theorem trans {c d e : Cursor} {u v : Text} (first : c.After u d) (second : d.After v e) :
    c.After (u ++ v) e := by
  refine ⟨?_, ?_, ?_⟩
  · rw [first.rest, second.rest, List.append_assoc]
  · rw [second.before, first.before, lastOr_append]
  · rw [second.offset, first.offset, List.length_append, Nat.add_assoc]

theorem mark {c d : Cursor} {u : Text} (h : c.After u d) (name : String) (s : Text) :
    c.After u (d.mark name s) := ⟨h.rest, h.before, h.offset⟩

end Cursor.After

theorem Cursor.upTo_past {c d : Cursor} {u : Text} (h : c.After u d) : c.upTo d = u := by
  rw [upTo, h.rest, h.offset]
  simp

namespace Pattern

/-! ## Spans -/

/-- Rounds of one pattern, none of them empty. -/
inductive Rounds (span : Option Char → Text → Text → Prop) : Option Char → Text → Text → Prop
  | done (before : Option Char) (rest : Text) : Rounds span before [] rest
  | more {before : Option Char} {u v rest : Text} (moves : u ≠ [])
      (first : span before u (v ++ rest)) (others : Rounds span (lastOr before u) v rest) :
      Rounds span before (u ++ v) rest

def Spans : Pattern → Option Char → Text → Text → Prop
  | .empty, _, u, _ => u = []
  | .one accepts, _, u, _ => ∃ x, accepts x ∧ u = [x]
  | .many accepts, _, u, _ => ∀ x ∈ u, accepts x
  | .few accepts, _, u, _ => ∀ x ∈ u, accepts x
  | .seq p q, before, u, rest =>
      ∃ v w, u = v ++ w ∧ Spans p before v (w ++ rest) ∧ Spans q (lastOr before v) w rest
  | .alt p q, before, u, rest => Spans p before u rest ∨ Spans q before u rest
  | .repeated p, before, u, rest => Rounds (Spans p) before u rest
  | .wordEdge, before, u, rest =>
      u = [] ∧ (before.any Text.isWord != rest.head?.any Text.isWord) = true
  | .lineStart, before, u, _ => u = [] ∧ (before = none ∨ before = some '\n')
  | .textEnd, _, u, rest => u = [] ∧ (rest = [] ∨ rest = ['\n'])
  | .notAhead p, before, u, rest =>
      u = [] ∧ ¬ ∃ v w, rest = v ++ w ∧ Spans p before v w
  | .notBehind accepts, before, u, _ => u = [] ∧ before.any accepts = false
  | .named _ p, before, u, rest => Spans p before u rest

/-- A span of the pattern begins at a place. -/
def Begins (p : Pattern) (before : Option Char) (s : Text) : Prop :=
  ∃ u v, s = u ++ v ∧ p.Spans before u v

/-! ## Spans of common patterns -/

section

variable {before : Option Char} {u rest : Text}

theorem Spans.seq {p q : Pattern} {v w : Text} (hp : p.Spans before v (w ++ rest))
    (hq : q.Spans (lastOr before v) w rest) : (Pattern.seq p q).Spans before (v ++ w) rest :=
  ⟨v, w, rfl, hp, hq⟩

theorem Spans.cons {p : Pattern} {ps : List Pattern} {v w : Text}
    (hp : p.Spans before v (w ++ rest)) (hps : (all ps).Spans (lastOr before v) w rest) :
    (all (p :: ps)).Spans before (v ++ w) rest :=
  .seq hp hps

theorem Spans.last {p : Pattern} (h : p.Spans before u rest) : (all [p]).Spans before u rest :=
  ⟨u, [], by simp, h, rfl⟩

theorem spans_any_nil : ¬ (any []).Spans before u rest := by
  rintro ⟨x, hx, -⟩
  simp at hx

theorem spans_many {accepts : Char → Bool} :
    (Pattern.many accepts).Spans before u rest ↔ ∀ x ∈ u, accepts x = true := Iff.rfl

theorem spans_many1 {accepts : Char → Bool} :
    (many1 accepts).Spans before u rest ↔ u ≠ [] ∧ ∀ x ∈ u, accepts x = true := by
  constructor
  · rintro ⟨v, w, rfl, ⟨x, hx, rfl⟩, hw⟩
    have hw : ∀ y ∈ w, accepts y = true := hw
    exact ⟨by simp, by simpa [hx] using hw⟩
  · rintro ⟨hne, hu⟩
    cases u with
    | nil => exact absurd rfl hne
    | cons x u =>
        exact ⟨[x], u, rfl, ⟨x, hu x (by simp), rfl⟩, fun y hy => hu y (by simp [hy])⟩

theorem spans_char {c : Char} : (char c).Spans before u rest ↔ u = [c] := by
  constructor
  · rintro ⟨x, hx, rfl⟩
    rw [beq_iff_eq.mp hx]
  · rintro rfl
    exact ⟨c, by simp, rfl⟩

theorem Rounds.of_each {span : Option Char → Text → Text → Prop} {keeps : Text → Prop}
    (hnil : keeps []) (happend : ∀ v w, keeps v → keeps w → keeps (v ++ w))
    (hspan : ∀ b v r, span b v r → keeps v) (h : Rounds span before u rest) : keeps u := by
  induction h with
  | done => exact hnil
  | more _ first _ ih => exact happend _ _ (hspan _ _ _ first) ih

end

/-- There are no rounds, or there is a last one. -/
theorem Rounds.exists_last {span : Option Char → Text → Text → Prop} {before : Option Char}
    {u rest : Text} (h : Rounds span before u rest) :
    u = [] ∨ ∃ v w b, u = v ++ w ∧ span b w rest := by
  induction h with
  | done => exact .inl rfl
  | @more before u v rest _ first _ ih =>
      rcases ih with rfl | ⟨v, w, b, rfl, hlast⟩
      · exact .inr ⟨[], u, before, by simp, first⟩
      · exact .inr ⟨u ++ v, w, b, by simp, hlast⟩

/-! ## Keywords -/

def Spells (letters : Text) (u : Text) : Prop :=
  List.Forall₂ (fun a x => Text.sameLetter a x = true) letters u

theorem spells_self (letters : Text) : Spells letters letters :=
  List.forall₂_same.mpr fun _ _ => by simp [Text.sameLetter]

theorem Spells.forall_of {letters u : Text} (h : Spells letters u) {holds : Char → Prop}
    (hholds : ∀ a ∈ letters, ∀ x, Text.sameLetter a x = true → holds x) : ∀ x ∈ u, holds x := by
  induction h with
  | nil => simp
  | cons hx _ ih =>
      obtain ⟨ha, hholds⟩ := List.forall_mem_cons.mp hholds
      exact List.forall_mem_cons.mpr ⟨ha _ hx, ih hholds⟩

theorem Spells.isWord {letters u : Text} (h : Spells letters u)
    (hletters : letters.all Text.isWord = true) : ∀ x ∈ u, Text.isWord x = true :=
  h.forall_of fun a ha _ hx => by
    rw [Text.isWord_eq_of_sameLetter hx]
    exact List.all_eq_true.mp hletters a ha

theorem Spells.map_foldCase {letters u : Text} (h : Spells letters u) :
    u.map Text.foldCase = letters.map Text.foldCase := by
  induction h with
  | nil => rfl
  | cons hx _ ih => rw [List.map_cons, List.map_cons, ih, beq_iff_eq.mp hx]

def spelledAt : Text → Text → Bool
  | [], _ => true
  | _ :: _, [] => false
  | a :: letters, x :: s => Text.sameLetter a x && spelledAt letters s

theorem spelledAt_append {letters u : Text} (h : Spells letters u) (s : Text) :
    spelledAt letters (u ++ s) = true := by
  induction h with
  | nil => rfl
  | cons hx _ ih => simp [spelledAt, hx, ih]

private theorem spans_letters_iff {letters : Text} {before : Option Char} {rest : Text} :
    (all (letters.map fun a => .one (Text.sameLetter a))).Spans before u rest ↔
      Spells letters u := by
  induction letters generalizing before u with
  | nil =>
      change u = [] ↔ _
      simp [Spells]
  | cons a letters ih =>
      change (∃ v w, u = v ++ w ∧ (∃ x, Text.sameLetter a x ∧ v = [x]) ∧
        (all (letters.map fun a => .one (Text.sameLetter a))).Spans _ w rest) ↔ _
      constructor
      · rintro ⟨v, w, rfl, ⟨x, hx, rfl⟩, hw⟩
        exact .cons hx (ih.mp hw)
      · rintro (_ | ⟨hx, hw⟩)
        exact ⟨[_], _, rfl, ⟨_, hx, rfl⟩, ih.mpr hw⟩

theorem spans_keyword_iff {letters : String} {before : Option Char} {rest : Text} :
    (keyword letters).Spans before u rest ↔ Spells letters.toList u :=
  spans_letters_iff

/-! ## Running a pattern -/

/-- What a pattern may mark: spans of its named parts. -/
def Marks : Pattern → String × Text → Prop
  | .seq p q, m => Marks p m ∨ Marks q m
  | .alt p q, m => Marks p m ∨ Marks q m
  | .repeated p, m => Marks p m
  | .named name p, m => (m.1 = name ∧ ∃ before rest, p.Spans before m.2 rest) ∨ Marks p m
  | _, _ => False

/-- The marks at the second place that are not at the first are spans of named parts. -/
def MarksFrom (p : Pattern) (c d : Cursor) : Prop := ∀ m ∈ d.marks, m ∈ c.marks ∨ p.Marks m

theorem MarksFrom.same (p : Pattern) {c d : Cursor} (h : d.marks = c.marks) : p.MarksFrom c d :=
  fun _ hm => .inl (h ▸ hm)

theorem MarksFrom.trans {p q r : Pattern} {c d e : Cursor} (hp : p.MarksFrom c d)
    (hq : q.MarksFrom d e) (hpr : ∀ m, p.Marks m → r.Marks m) (hqr : ∀ m, q.Marks m → r.Marks m) :
    r.MarksFrom c e := by
  intro m hm
  rcases hq m hm with hm | hm
  · exact (hp m hm).imp_right (hpr m)
  · exact .inr (hqr m hm)

/-- Whatever a run answers comes from a span behind which the continuation answered it. -/
def Sound (p : Pattern) : Prop :=
  ∀ (c : Cursor) (k : Follow) (r : Cursor), p.run c k = some r →
    ∃ u d, c.After u d ∧ p.Spans c.before u d.rest ∧ p.MarksFrom c d ∧ k d = some r

/-- A run answers if there is a span behind which the continuation always answers. -/
def Complete (p : Pattern) : Prop :=
  ∀ (c : Cursor) (k : Follow) (u v : Text), c.rest = u ++ v → p.Spans c.before u v →
    (∀ d, c.After u d → d.rest = v → (k d).isSome) → (p.run c k).isSome

private theorem runMany_sound {accepts : Char → Bool} {k : Follow} {s : Text} {c r : Cursor}
    (hs : c.rest = s) (h : runMany accepts k s c = some r) :
    ∃ u d, c.After u d ∧ (∀ x ∈ u, accepts x) ∧ d.marks = c.marks ∧ k d = some r := by
  induction s generalizing c with
  | nil => exact ⟨[], c, .refl c, by simp, rfl, h⟩
  | cons x s ih =>
      have stay : k c = some r →
          ∃ u d, c.After u d ∧ (∀ x ∈ u, accepts x) ∧ d.marks = c.marks ∧ k d = some r :=
        fun hk => ⟨[], c, .refl c, by simp, rfl, hk⟩
      rw [runMany] at h
      split at h
      · rename_i hx
        rcases (Option.orElse_eq_some _ _ _).mp h with hmore | ⟨-, hk⟩
        · obtain ⟨u, d, after, hu, hmarks, hk⟩ := ih (c := c.step x s) rfl hmore
          refine ⟨x :: u, d, (Cursor.After.step hs).trans after, ?_, hmarks, hk⟩
          simpa [hx] using hu
        · exact stay hk
      · exact stay h

private theorem runFew_sound {accepts : Char → Bool} {k : Follow} {s : Text} {c r : Cursor}
    (hs : c.rest = s) (h : runFew accepts k s c = some r) :
    ∃ u d, c.After u d ∧ (∀ x ∈ u, accepts x) ∧ d.marks = c.marks ∧ k d = some r := by
  induction s generalizing c with
  | nil => exact ⟨[], c, .refl c, by simp, rfl, h⟩
  | cons x s ih =>
      rw [runFew] at h
      rcases (Option.orElse_eq_some _ _ _).mp h with hk | ⟨-, hmore⟩
      · exact ⟨[], c, .refl c, by simp, rfl, hk⟩
      · split at hmore
        · rename_i hx
          obtain ⟨u, d, after, hu, hmarks, hk⟩ := ih (c := c.step x s) rfl hmore
          refine ⟨x :: u, d, (Cursor.After.step hs).trans after, ?_, hmarks, hk⟩
          simpa [hx] using hu
        · simp at hmore

private theorem runRepeated_sound {p : Pattern} (ih : Sound p) {k : Follow} {rounds : Nat}
    {c r : Cursor} (h : runRepeated p.run k rounds c = some r) :
    ∃ u d, c.After u d ∧ Rounds p.Spans c.before u d.rest ∧
      (Pattern.repeated p).MarksFrom c d ∧ k d = some r := by
  induction rounds generalizing c with
  | zero => exact ⟨[], c, .refl c, .done _ _, .same _ rfl, h⟩
  | succ rounds ihRounds =>
      rw [runRepeated] at h
      rcases (Option.orElse_eq_some _ _ _).mp h with hround | ⟨-, hk⟩
      · obtain ⟨u, d, after, hspan, hmarks, hmore⟩ := ih _ _ _ hround
        split at hmore
        · rename_i hmoves
          obtain ⟨v, e, afterMore, hrounds, hmarksMore, hk⟩ := ihRounds hmore
          have hu : u ≠ [] := by
            rintro rfl
            simp [after.offset] at hmoves
          refine ⟨u ++ v, e, after.trans afterMore, .more hu ?_ ?_,
            hmarks.trans hmarksMore (fun _ hm => hm) fun _ hm => hm, hk⟩
          · rwa [← afterMore.rest]
          · rwa [← after.before]
        · simp at hmore
      · exact ⟨[], c, .refl c, .done _ _, .same _ rfl, hk⟩

private theorem runMany_complete {accepts : Char → Bool} {k : Follow} {u v : Text} {c : Cursor}
    (hs : c.rest = u ++ v) (hu : ∀ x ∈ u, accepts x)
    (hk : ∀ d, c.After u d → d.rest = v → (k d).isSome) :
    (runMany accepts k (u ++ v) c).isSome := by
  induction u generalizing c with
  | nil =>
      have stay : (k c).isSome := hk c (.refl c) hs
      cases v with
      | nil => exact stay
      | cons x v =>
          simp only [List.nil_append, runMany]
          split
          · simp [stay]
          · exact stay
  | cons x u ih =>
      have hx : accepts x := hu x (by simp)
      have hmore := ih (c := c.step x (u ++ v)) rfl (fun y hy => hu y (by simp [hy]))
        fun d after hd => hk d ((Cursor.After.step hs).trans after) hd
      simp [runMany, hx, hmore]

private theorem runFew_complete {accepts : Char → Bool} {k : Follow} {u v : Text} {c : Cursor}
    (hs : c.rest = u ++ v) (hu : ∀ x ∈ u, accepts x)
    (hk : ∀ d, c.After u d → d.rest = v → (k d).isSome) :
    (runFew accepts k (u ++ v) c).isSome := by
  induction u generalizing c with
  | nil =>
      have stay : (k c).isSome := hk c (.refl c) hs
      cases v with
      | nil => exact stay
      | cons x v => simp [runFew, stay]
  | cons x u ih =>
      have hx : accepts x := hu x (by simp)
      have hmore := ih (c := c.step x (u ++ v)) rfl (fun y hy => hu y (by simp [hy]))
        fun d after hd => hk d ((Cursor.After.step hs).trans after) hd
      simp [runFew, hx, hmore]

private theorem runRepeated_complete {p : Pattern} (ih : Complete p) {k : Follow} {u v : Text}
    {before : Option Char} (hspan : Rounds p.Spans before u v) {rounds : Nat} {c : Cursor}
    (hbefore : c.before = before) (hs : c.rest = u ++ v) (henough : u.length ≤ rounds)
    (hk : ∀ d, c.After u d → d.rest = v → (k d).isSome) :
    (runRepeated p.run k rounds c).isSome := by
  induction hspan generalizing rounds c with
  | done before rest =>
      have stay : (k c).isSome := hk c (.refl c) hs
      cases rounds <;> simp [runRepeated, stay]
  | @more before u w rest moves first others ihOthers =>
      subst hbefore
      cases rounds with
      | zero => simp_all
      | succ rounds =>
          have hlength : 0 < u.length := List.length_pos_iff.mpr moves
          have hround := ih c
            (fun d => if c.offset < d.offset then runRepeated p.run k rounds d else none) u
            (w ++ rest) (by simpa using hs) first ?_
          · simp [runRepeated, hround]
          · intro d after hd
            have hmoves : c.offset < d.offset := by
              rw [after.offset]
              omega
            rw [if_pos hmoves]
            refine ihOthers after.before hd ?_ ?_
            · simp at henough
              omega
            · intro e afterMore he
              exact hk e (after.trans afterMore) he

private theorem sound_one (accepts : Char → Bool) : Sound (.one accepts) := by
  intro c k r h
  rw [run] at h
  split at h
  · simp at h
  · rename_i x s hs
    split at h
    · rename_i hx
      exact ⟨[x], _, .step hs, ⟨x, hx, rfl⟩, .same _ rfl, h⟩
    · simp at h

private theorem complete_one (accepts : Char → Bool) : Complete (.one accepts) := by
  rintro c k _ v hs ⟨x, hx, rfl⟩ hk
  have hs : c.rest = x :: v := hs
  simpa [run, hs, hx] using hk _ (.step hs) rfl

private theorem Sound.seq {p q : Pattern} (hp : Sound p) (hq : Sound q) : Sound (.seq p q) := by
  intro c k r h
  obtain ⟨u, d, after, hspan, hmarks, hd⟩ := hp _ _ _ h
  obtain ⟨v, e, afterMore, hspanMore, hmarksMore, he⟩ := hq _ _ _ hd
  refine ⟨u ++ v, e, after.trans afterMore, .seq ?_ ?_,
    hmarks.trans hmarksMore (fun _ => .inl) fun _ => .inr, he⟩
  · rwa [← afterMore.rest]
  · rwa [← after.before]

private theorem Complete.seq {p q : Pattern} (hp : Complete p) (hq : Complete q) :
    Complete (.seq p q) := by
  rintro c k _ v hs ⟨w, z, rfl, hspan, hspanMore⟩ hk
  refine hp c _ w (z ++ v) (by simpa using hs) hspan fun d after hd => ?_
  refine hq d _ z v hd (by rwa [after.before]) fun e afterMore he => ?_
  exact hk e (after.trans afterMore) he

private theorem Sound.alt {p q : Pattern} (hp : Sound p) (hq : Sound q) : Sound (.alt p q) := by
  intro c k r h
  rcases (Option.orElse_eq_some _ _ _).mp h with h | ⟨-, h⟩
  · obtain ⟨u, d, after, hspan, hmarks, hd⟩ := hp _ _ _ h
    exact ⟨u, d, after, .inl hspan, fun m hm => (hmarks m hm).imp_right .inl, hd⟩
  · obtain ⟨u, d, after, hspan, hmarks, hd⟩ := hq _ _ _ h
    exact ⟨u, d, after, .inr hspan, fun m hm => (hmarks m hm).imp_right .inr, hd⟩

private theorem Complete.alt {p q : Pattern} (hp : Complete p) (hq : Complete q) :
    Complete (.alt p q) := by
  rintro c k u v hs (hspan | hspan) hk
  · simp [run, hp c k u v hs hspan hk]
  · simp [run, hq c k u v hs hspan hk]

private theorem Sound.named {p : Pattern} (hp : Sound p) (name : String) :
    Sound (.named name p) := by
  intro c k r h
  obtain ⟨u, d, after, hspan, hmarks, hd⟩ := hp _ _ _ h
  refine ⟨u, d.mark name (c.upTo d), after.mark _ _, hspan, fun m hm => ?_, hd⟩
  rcases List.mem_cons.mp hm with rfl | hm
  · rw [Cursor.upTo_past after]
    exact .inr (.inl ⟨rfl, c.before, d.rest, hspan⟩)
  · exact (hmarks m hm).imp_right .inr

private theorem Complete.named {p : Pattern} (hp : Complete p) (name : String) :
    Complete (.named name p) :=
  fun c _ u v hs hspan hk => hp c _ u v hs hspan fun _ after hd => hk _ (after.mark _ _) hd

/-- A pattern that takes nothing and only tests the place where it is tried. -/
private theorem sound_and_complete_of_test {p : Pattern} (test : Cursor → Prop)
    [DecidablePred test] (hrun : ∀ c k, p.run c k = if test c then k c else none)
    (hspans : ∀ {c : Cursor} {u v : Text}, c.rest = u ++ v →
      (p.Spans c.before u v ↔ u = [] ∧ test c)) : Sound p ∧ Complete p := by
  constructor
  · intro c k r h
    rw [hrun] at h
    split at h
    · rename_i htest
      exact ⟨[], c, .refl c, (hspans rfl).mpr ⟨rfl, htest⟩, .same _ rfl, h⟩
    · simp at h
  · intro c k u v hs hspan hk
    obtain ⟨rfl, htest⟩ := (hspans hs).mp hspan
    rw [hrun, if_pos htest]
    exact hk c (.refl c) hs

private theorem isSome_run_iff {p : Pattern} (hp : Sound p ∧ Complete p) (c : Cursor) :
    (p.run c some).isSome = true ↔ ∃ v w, c.rest = v ++ w ∧ p.Spans c.before v w := by
  constructor
  · intro hsome
    obtain ⟨r, hr⟩ := Option.isSome_iff_exists.mp hsome
    obtain ⟨v, d, after, hspan, -, -⟩ := hp.1 _ _ _ hr
    exact ⟨v, d.rest, after.rest, hspan⟩
  · rintro ⟨v, w, hs, hspan⟩
    exact hp.2 c some v w hs hspan fun _ _ _ => rfl

theorem sound_and_complete (p : Pattern) : Sound p ∧ Complete p := by
  induction p with
  | empty =>
      exact sound_and_complete_of_test (fun _ => True) (fun _ _ => rfl) fun _ =>
        (and_iff_left trivial).symm
  | one accepts => exact ⟨sound_one accepts, complete_one accepts⟩
  | many accepts =>
      refine ⟨fun c k r h => ?_, fun c k u v hs hspan hk => ?_⟩
      · obtain ⟨u, d, after, hu, hmarks, hk⟩ := runMany_sound rfl h
        exact ⟨u, d, after, hu, .same _ hmarks, hk⟩
      · rw [run, hs]
        exact runMany_complete hs hspan hk
  | few accepts =>
      refine ⟨fun c k r h => ?_, fun c k u v hs hspan hk => ?_⟩
      · obtain ⟨u, d, after, hu, hmarks, hk⟩ := runFew_sound rfl h
        exact ⟨u, d, after, hu, .same _ hmarks, hk⟩
      · rw [run, hs]
        exact runFew_complete hs hspan hk
  | seq p q ihp ihq => exact ⟨ihp.1.seq ihq.1, ihp.2.seq ihq.2⟩
  | alt p q ihp ihq => exact ⟨ihp.1.alt ihq.1, ihp.2.alt ihq.2⟩
  | repeated p ih =>
      refine ⟨fun c k r h => runRepeated_sound ih.1 h, fun c k u v hs hspan hk => ?_⟩
      exact runRepeated_complete ih.2 hspan rfl hs (by simp [hs]) hk
  | wordEdge =>
      refine sound_and_complete_of_test (fun c => (c.beforeIsWord != c.nextIsWord) = true)
        (fun _ _ => rfl) fun {c u v} hs => and_congr_right ?_
      rintro rfl
      rw [Cursor.beforeIsWord, Cursor.nextIsWord, hs, List.nil_append]
  | lineStart =>
      exact sound_and_complete_of_test (fun c => c.before = none ∨ c.before = some '\n')
        (fun _ _ => rfl) fun _ => .rfl
  | textEnd =>
      refine sound_and_complete_of_test (fun c => c.rest = [] ∨ c.rest = ['\n'])
        (fun _ _ => rfl) fun {c u v} hs => and_congr_right ?_
      rintro rfl
      rw [hs, List.nil_append]
  | notAhead p ih =>
      refine sound_and_complete_of_test (fun c => ¬ (p.run c some).isSome = true)
        (fun _ _ => (ite_not ..).symm) fun {c u v} hs => and_congr_right ?_
      rintro rfl
      rw [isSome_run_iff ih, hs, List.nil_append]
  | notBehind accepts =>
      refine sound_and_complete_of_test (fun c => ¬ c.before.any accepts = true)
        (fun _ _ => (ite_not ..).symm) fun _ => and_congr_right fun _ => ?_
      rw [Bool.not_eq_true]
  | named name p ih => exact ⟨ih.1.named name, ih.2.named name⟩

theorem exists_spans_of_run {p : Pattern} {c : Cursor} {k : Follow} {r : Cursor}
    (h : p.run c k = some r) :
    ∃ u d, c.After u d ∧ p.Spans c.before u d.rest ∧ k d = some r := by
  obtain ⟨u, d, after, hspan, -, hk⟩ := (sound_and_complete p).1 c k r h
  exact ⟨u, d, after, hspan, hk⟩

theorem run_eq_none {p : Pattern} {c : Cursor} {k : Follow}
    (h : ∀ u d, c.After u d → p.Spans c.before u d.rest → k d = none) : p.run c k = none := by
  cases hr : p.run c k with
  | none => rfl
  | some r =>
      obtain ⟨u, d, after, hspan, hk⟩ := exists_spans_of_run hr
      simp [h u d after hspan] at hk

theorem run_eq_none_of_not_begins {p : Pattern} {c : Cursor} {k : Follow}
    (h : ¬ p.Begins c.before c.rest) : p.run c k = none :=
  run_eq_none fun u d after hspan => absurd ⟨u, d.rest, after.rest, hspan⟩ h

/-! ## Search -/

theorem matchAt_eq_some {p : Pattern} {c : Cursor} {found : Found}
    (h : p.matchAt c = some found) :
    found.start = c.offset ∧ ∃ u, c.After u found.stop ∧ p.Spans c.before u found.stop.rest := by
  obtain ⟨d, hd, rfl⟩ := Option.map_eq_some_iff.mp h
  obtain ⟨u, e, after, hspan, he⟩ := exists_spans_of_run hd
  cases he
  exact ⟨rfl, u, after, hspan⟩

theorem marks_of_matchAt {p : Pattern} {c : Cursor} {found : Found} (hc : c.marks = [])
    (h : p.matchAt c = some found) : ∀ m ∈ found.stop.marks, p.Marks m := by
  obtain ⟨d, hd, rfl⟩ := Option.map_eq_some_iff.mp h
  obtain ⟨u, e, -, -, hmarks, he⟩ := (sound_and_complete p).1 c some d hd
  cases he
  intro m hm
  simpa [hc] using hmarks m hm

theorem matchAt_eq_none_iff {p : Pattern} {c : Cursor} :
    p.matchAt c = none ↔ ¬ p.Begins c.before c.rest := by
  constructor
  · rintro hnone ⟨u, v, hs, hspan⟩
    have hsome := (sound_and_complete p).2 c some u v hs hspan fun d _ _ => rfl
    rw [Option.map_eq_none_iff.mp hnone] at hsome
    simp at hsome
  · intro h
    simp [matchAt, run_eq_none_of_not_begins h]

instance Begins.decidable (p : Pattern) (before : Option Char) (s : Text) :
    Decidable (p.Begins before s) :=
  decidable_of_iff ((p.matchAt ⟨before, s, 0, []⟩).isSome = true) <| by
    rw [Option.isSome_iff_ne_none, Ne, matchAt_eq_none_iff, not_not]

/-- No span of the pattern begins in `s`, where `rest` follows. -/
def Avoids (p : Pattern) (before : Option Char) (s rest : Text) : Prop :=
  ∀ a b, s = a ++ b → b ≠ [] → ¬ p.Begins (lastOr before a) (b ++ rest)

theorem avoids_nil (p : Pattern) (before : Option Char) (rest : Text) :
    p.Avoids before [] rest := by
  rintro a b h hne
  exact absurd (List.append_eq_nil_iff.mp h.symm).2 hne

theorem avoids_append {p : Pattern} {before : Option Char} {s t rest : Text} :
    p.Avoids before (s ++ t) rest ↔
      p.Avoids before s (t ++ rest) ∧ p.Avoids (lastOr before s) t rest := by
  constructor
  · intro h
    constructor
    · rintro a b rfl hne
      have := h a (b ++ t) (by simp) (by simp [hne])
      simpa using this
    · rintro a b rfl hne
      have := h (s ++ a) b (by simp) hne
      simpa using this
  · rintro ⟨hs, ht⟩ a b hab hne
    rcases List.append_eq_append_iff.mp hab with ⟨z, rfl, rfl⟩ | ⟨z, rfl, rfl⟩
    · rw [lastOr_append]
      exact ht z b rfl hne
    · by_cases hz : z = []
      · subst hz
        simpa using ht [] t rfl (by simpa using hne)
      · have := hs a z rfl hz
        simpa using this

theorem avoids_cons {p : Pattern} {before : Option Char} {x : Char} {s rest : Text} :
    p.Avoids before (x :: s) rest ↔
      ¬ p.Begins before (x :: (s ++ rest)) ∧ p.Avoids (some x) s rest := by
  rw [show x :: s = [x] ++ s from rfl, avoids_append]
  refine and_congr_left fun _ => ⟨fun h => by simpa using h [] [x] rfl (by simp), ?_⟩
  intro hx a b hab hne
  cases a with
  | nil =>
      obtain rfl : [x] = b := hab
      simpa using hx
  | cons y a =>
      simp only [List.cons_append, List.cons.injEq] at hab
      exact absurd (List.append_eq_nil_iff.mp hab.2.symm).2 hne

private theorem findFrom_cons_of_not_begins {p : Pattern} {before : Option Char} {offset : Nat}
    {x : Char} {s : Text} (h : ¬ p.Begins before (x :: s)) :
    p.findFrom before offset (x :: s) = p.findFrom (some x) (offset + 1) s := by
  rw [findFrom, matchAt_eq_none_iff.mpr h]

theorem findFrom_append {p : Pattern} {before : Option Char} {offset : Nat} {s rest : Text}
    (h : p.Avoids before s rest) :
    p.findFrom before offset (s ++ rest) =
      p.findFrom (lastOr before s) (offset + s.length) rest := by
  induction s generalizing before offset with
  | nil => rfl
  | cons x s ih =>
      obtain ⟨hx, hs⟩ := avoids_cons.mp h
      rw [List.cons_append, findFrom_cons_of_not_begins hx, ih hs]
      simp [Nat.add_comm, Nat.add_left_comm]

theorem findFrom_of_matchAt {p : Pattern} {before : Option Char} {offset : Nat} {s : Text}
    {found : Found} (h : p.matchAt ⟨before, s, offset, []⟩ = some found) :
    p.findFrom before offset s = some found := by
  cases s with
  | nil => exact h
  | cons x s => rw [findFrom, h]

/-- What a search from a place answers: it passes over `a`, and the pattern spans `u` behind it. -/
structure FoundAt (p : Pattern) (before : Option Char) (offset : Nat) (s : Text) (found : Found)
    (a u : Text) : Prop where
  text : s = a ++ (u ++ found.stop.rest)
  start : found.start = offset + a.length
  stop : found.stop.offset = offset + a.length + u.length
  spans : p.Spans (lastOr before a) u found.stop.rest
  avoids : p.Avoids before a (u ++ found.stop.rest)

private theorem foundAt_of_matchAt {p : Pattern} {before : Option Char} {offset : Nat} {s : Text}
    {found : Found} (h : p.matchAt ⟨before, s, offset, []⟩ = some found) :
    ∃ u, FoundAt p before offset s found [] u := by
  obtain ⟨hstart, u, after, hspan⟩ := matchAt_eq_some h
  exact ⟨u, after.rest, hstart, after.offset, hspan, avoids_nil _ _ _⟩

theorem findFrom_eq_some {p : Pattern} {before : Option Char} {offset : Nat} {s : Text}
    {found : Found} (h : p.findFrom before offset s = some found) :
    ∃ a u, FoundAt p before offset s found a u := by
  induction s generalizing before offset with
  | nil => exact ⟨[], foundAt_of_matchAt h⟩
  | cons x s ih =>
      cases hmatch : p.matchAt ⟨before, x :: s, offset, []⟩ with
      | some other =>
          rw [findFrom_of_matchAt hmatch] at h
          cases h
          exact ⟨[], foundAt_of_matchAt hmatch⟩
      | none =>
          have hx : ¬ p.Begins before (x :: s) := matchAt_eq_none_iff.mp hmatch
          rw [findFrom_cons_of_not_begins hx] at h
          obtain ⟨a, u, hfound⟩ := ih h
          refine ⟨x :: a, u, ?_, ?_, ?_, hfound.spans, ?_⟩
          · rw [hfound.text]
            rfl
          · rw [hfound.start, List.length_cons]
            omega
          · rw [hfound.stop, List.length_cons]
            omega
          · refine avoids_cons.mpr ⟨?_, hfound.avoids⟩
            rwa [← hfound.text]

theorem exists_matchAt_of_findFrom {p : Pattern} {before : Option Char} {offset : Nat} {s : Text}
    {found : Found} (h : p.findFrom before offset s = some found) :
    ∃ c : Cursor, c.marks = [] ∧ p.matchAt c = some found := by
  induction s generalizing before offset with
  | nil => exact ⟨_, rfl, h⟩
  | cons x s ih =>
      cases hmatch : p.matchAt ⟨before, x :: s, offset, []⟩ with
      | some other =>
          rw [findFrom_of_matchAt hmatch] at h
          exact ⟨_, rfl, hmatch.trans h⟩
      | none =>
          rw [findFrom, hmatch] at h
          exact ih h

theorem findFrom_eq_none_iff {p : Pattern} {before : Option Char} {offset : Nat} {s : Text} :
    p.findFrom before offset s = none ↔ ∀ a b, s = a ++ b → ¬ p.Begins (lastOr before a) b := by
  induction s generalizing before offset with
  | nil =>
      rw [findFrom, matchAt_eq_none_iff]
      constructor
      · rintro h a b hab
        obtain ⟨rfl, rfl⟩ := List.append_eq_nil_iff.mp hab.symm
        exact h
      · intro h
        exact h [] [] rfl
  | cons x s ih =>
      constructor
      · intro hnone a b hab
        have hx : ¬ p.Begins before (x :: s) := by
          rw [← matchAt_eq_none_iff (c := ⟨before, x :: s, offset, []⟩)]
          cases hmatch : p.matchAt ⟨before, x :: s, offset, []⟩ with
          | none => rfl
          | some found => simp [findFrom_of_matchAt hmatch] at hnone
        cases a with
        | nil =>
            obtain rfl : x :: s = b := hab
            exact hx
        | cons y a =>
            obtain ⟨rfl, rfl⟩ := List.cons.inj hab
            rw [findFrom_cons_of_not_begins hx] at hnone
            exact ih.mp hnone a b rfl
      · intro h
        have hx : ¬ p.Begins before (x :: s) := h [] _ rfl
        rw [findFrom_cons_of_not_begins hx]
        exact ih.mpr fun a b hab => h (x :: a) b (by rw [hab]; rfl)

theorem find?_eq_none_iff {p : Pattern} {s : Text} :
    p.find? s = none ↔ ∀ a b, s = a ++ b → ¬ p.Begins (lastOr none a) b :=
  findFrom_eq_none_iff

theorem occursIn_iff {p : Pattern} {s : Text} :
    p.occursIn s = true ↔ ∃ a b, s = a ++ b ∧ p.Begins (lastOr none a) b := by
  rw [occursIn, ← not_iff_not, Bool.not_eq_true, Option.isSome_eq_false_iff,
    Option.isNone_iff_eq_none, find?_eq_none_iff]
  simp

theorem find?_eq_some {p : Pattern} {s : Text} {found : Found} (h : p.find? s = some found) :
    ∃ a u, FoundAt p none 0 s found a u :=
  findFrom_eq_some h

theorem marks_of_find? {p : Pattern} {s : Text} {found : Found} (h : p.find? s = some found) :
    ∀ m ∈ found.stop.marks, p.Marks m := by
  obtain ⟨c, hc, hmatch⟩ := exists_matchAt_of_findFrom h
  exact marks_of_matchAt hc hmatch

/-- Where a search stops, a match tried there answers the same. -/
theorem FoundAt.matchAt {p : Pattern} {s : Text} {found : Found} {a u : Text}
    (h : FoundAt p none 0 s found a u) (hfind : p.find? s = some found) :
    p.matchAt ⟨lastOr none a, u ++ found.stop.rest, a.length, []⟩ = some found := by
  rw [find?, h.text, findFrom_append h.avoids, Nat.zero_add] at hfind
  cases hmatch : p.matchAt ⟨lastOr none a, u ++ found.stop.rest, a.length, []⟩ with
  | none => exact absurd ⟨u, _, rfl, h.spans⟩ (matchAt_eq_none_iff.mp hmatch)
  | some other => rw [← findFrom_of_matchAt hmatch, hfind]

/-- A search stops no later than where the pattern begins. -/
theorem FoundAt.length_le {p : Pattern} {s : Text} {found : Found} {a u x y : Text}
    (h : FoundAt p none 0 s found a u) (hs : s = x ++ y) (hbegins : p.Begins (lastOr none x) y) :
    a.length ≤ x.length := by
  rcases List.append_eq_append_iff.mp (h.text.symm.trans hs) with ⟨z, rfl, -⟩ | ⟨z, rfl, hz⟩
  · simp
  · by_cases hne : z = []
    · simp [hne]
    · exact absurd (hz ▸ hbegins) (h.avoids x z rfl hne)

/-- Where the pattern begins behind a part that it avoids, a search stops there. -/
theorem exists_find?_append {p : Pattern} {a b : Text} (havoids : p.Avoids none a b)
    (hbegins : p.Begins (lastOr none a) b) :
    ∃ found u, p.find? (a ++ b) = some found ∧ FoundAt p none 0 (a ++ b) found a u := by
  cases hmatch : p.matchAt ⟨lastOr none a, b, a.length, []⟩ with
  | none => exact absurd hbegins (matchAt_eq_none_iff.mp hmatch)
  | some found =>
      obtain ⟨hstart, u, after, hspan⟩ := matchAt_eq_some hmatch
      have hb : b = u ++ found.stop.rest := after.rest
      refine ⟨found, u, ?_, by rw [hb], ?_, ?_, hspan, by rwa [← hb]⟩
      · rw [find?, findFrom_append havoids, Nat.zero_add]
        exact findFrom_of_matchAt hmatch
      · rw [hstart, Nat.zero_add]
      · rw [after.offset, Nat.zero_add]

end Pattern

end ProcCatalog
