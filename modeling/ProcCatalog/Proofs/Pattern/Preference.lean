import ProcCatalog.Proofs.Pattern.Spans

/-!
# What a pattern prefers

Where a pattern leaves a choice, the preferred one is taken if the continuation answers behind it:
the longest run for `many`, round after round for `repeated`, the first branch of an alternative.
The shortest run of `few` is taken only if the continuation answers nowhere before.
-/

namespace ProcCatalog

/-- The place behind some characters, where `rest` follows. -/
def Cursor.past (c : Cursor) (u rest : Text) : Cursor :=
  { c with before := lastOr c.before u, rest := rest, offset := c.offset + u.length }

namespace Cursor

@[simp] theorem past_rest (c : Cursor) (u rest : Text) : (c.past u rest).rest = rest := rfl

@[simp] theorem past_before (c : Cursor) (u rest : Text) :
    (c.past u rest).before = lastOr c.before u := rfl

@[simp] theorem past_offset (c : Cursor) (u rest : Text) :
    (c.past u rest).offset = c.offset + u.length := rfl

@[simp] theorem past_marks (c : Cursor) (u rest : Text) : (c.past u rest).marks = c.marks := rfl

theorem past_nil {c : Cursor} {rest : Text} (h : c.rest = rest) : c.past [] rest = c := by
  subst h
  rfl

theorem past_past (c : Cursor) (u v rest rest' : Text) :
    (c.past u rest).past v rest' = c.past (u ++ v) rest' := by
  simp [past, Nat.add_assoc]

theorem step_eq_past (c : Cursor) (x : Char) (s : Text) : c.step x s = c.past [x] s := rfl

theorem After.past {c : Cursor} {u v : Text} (h : c.rest = u ++ v) : c.After u (c.past u v) :=
  ⟨h, rfl, rfl⟩

end Cursor

namespace Pattern

variable {c : Cursor} {k : Follow} {r : Cursor} {u v : Text}

theorem run_all_cons (p : Pattern) (ps : List Pattern) (c : Cursor) (k : Follow) :
    run (all (p :: ps)) c k = run p c fun d => run (all ps) d k := rfl

theorem run_all_nil (c : Cursor) (k : Follow) : run (all []) c k = k c := rfl

theorem run_one_past {accepts : Char → Bool} {x : Char} (hs : c.rest = x :: v)
    (hx : accepts x = true) : run (.one accepts) c k = k (c.past [x] v) := by
  simp [run, hs, hx, Cursor.step_eq_past]

theorem run_char_past {x : Char} (hs : c.rest = x :: v) :
    run (char x) c k = k (c.past [x] v) :=
  run_one_past hs (by simp)

theorem run_alt_left {p q : Pattern} (h : run p c k = some r) : run (.alt p q) c k = some r := by
  rw [run, h]
  rfl

theorem run_alt_right {p q : Pattern} (h : run p c k = none) :
    run (.alt p q) c k = run q c k := by
  rw [run, h]
  rfl

theorem run_option_skip {p : Pattern} (h : run p c k = none) : run (option p) c k = k c :=
  run_alt_right h

private theorem runMany_past {accepts : Char → Bool} (hs : c.rest = u ++ v)
    (hu : ∀ x ∈ u, accepts x = true) (hv : ∀ x ∈ v.head?, accepts x = false)
    (hk : k (c.past u v) = some r) : runMany accepts k (u ++ v) c = some r := by
  induction u generalizing c with
  | nil =>
      have hhere : c.past [] v = c := Cursor.past_nil hs
      rw [hhere] at hk
      cases v with
      | nil => exact hk
      | cons x v =>
          have hx : accepts x = false := hv x rfl
          simpa [runMany, hx] using hk
  | cons x u ih =>
      have hx : accepts x = true := hu x (by simp)
      have hmore := ih (c := c.step x (u ++ v)) rfl (fun y hy => hu y (by simp [hy]))
        (by rw [Cursor.step_eq_past, Cursor.past_past]; exact hk)
      simp [runMany, hx, hmore]

/-- The longest run is taken if the continuation answers behind it. -/
theorem run_many_past {accepts : Char → Bool} (hs : c.rest = u ++ v)
    (hu : ∀ x ∈ u, accepts x = true) (hv : ∀ x ∈ v.head?, accepts x = false)
    (hk : k (c.past u v) = some r) : run (.many accepts) c k = some r := by
  rw [run, hs]
  exact runMany_past hs hu hv hk

theorem run_many1_past {accepts : Char → Bool} (hs : c.rest = u ++ v) (hne : u ≠ [])
    (hu : ∀ x ∈ u, accepts x = true) (hv : ∀ x ∈ v.head?, accepts x = false)
    (hk : k (c.past u v) = some r) : run (many1 accepts) c k = some r := by
  cases u with
  | nil => exact absurd rfl hne
  | cons x u =>
      have hx : accepts x = true := hu x (by simp)
      rw [many1, run, run_one_past hs hx]
      refine run_many_past rfl (fun y hy => hu y (by simp [hy])) hv ?_
      rwa [Cursor.past_past]

private theorem runFew_past (hs : c.rest = u ++ v) {accepts : Char → Bool}
    (hu : ∀ x ∈ u, accepts x = true)
    (hfail : ∀ a b, u = a ++ b → b ≠ [] → k (c.past a (b ++ v)) = none) :
    runFew accepts k (u ++ v) c = k (c.past u v) ∨ k (c.past u v) = none := by
  induction u generalizing c with
  | nil =>
      have hhere : c.past [] v = c := Cursor.past_nil hs
      rw [hhere]
      cases v with
      | nil => exact .inl rfl
      | cons x v =>
          cases hk : k c with
          | none => exact .inr rfl
          | some r => exact .inl (by simp [runFew, hk])
  | cons x u ih =>
      have hx : accepts x = true := hu x (by simp)
      have hhere : k c = none := by
        have := hfail [] (x :: u) rfl (by simp)
        rwa [Cursor.past_nil hs] at this
      have hmore := ih (c := c.step x (u ++ v)) rfl (fun y hy => hu y (by simp [hy]))
        fun a b hab hne => by
          rw [Cursor.step_eq_past, Cursor.past_past]
          exact hfail (x :: a) b (by rw [hab]; rfl) hne
      rw [Cursor.step_eq_past, Cursor.past_past] at hmore
      simpa [runFew, hx, hhere, Cursor.step_eq_past] using hmore

/-- A run is taken by `few` if the continuation answers behind it and nowhere before. -/
theorem run_few_past {accepts : Char → Bool} (hs : c.rest = u ++ v)
    (hu : ∀ x ∈ u, accepts x = true)
    (hfail : ∀ a b, u = a ++ b → b ≠ [] → k (c.past a (b ++ v)) = none)
    (hk : k (c.past u v) = some r) : run (.few accepts) c k = some r := by
  rw [run, hs]
  rcases runFew_past hs hu hfail with h | h
  · rw [h, hk]
  · simp [h] at hk

/-- Rounds are made as long as they succeed; `stops` holds where a round may end. -/
theorem run_repeated_past {p : Pattern} (rounds : List Text) (stops : Text → Prop)
    (hs : c.rest = rounds.flatten ++ v) (hmoves : ∀ w ∈ rounds, w ≠ [])
    (hround : ∀ w ∈ rounds, ∀ (d : Cursor) (rest : Text) (k : Follow) (r : Cursor),
      d.rest = w ++ rest → stops rest → k (d.past w rest) = some r → run p d k = some r)
    (hstops : ∀ ws, ws <:+ rounds → stops (ws.flatten ++ v))
    (hend : ¬ p.Begins (lastOr c.before rounds.flatten) v)
    (hk : k (c.past rounds.flatten v) = some r) : run (.repeated p) c k = some r := by
  rw [run]
  suffices h : ∀ n, rounds.length ≤ n → runRepeated p.run k n c = some r by
    refine h _ ?_
    rw [hs, List.length_append, List.length_flatten]
    refine Nat.le_trans ?_ (Nat.le_add_right _ _)
    have hone : ∀ n ∈ rounds.map List.length, 1 ≤ n := by
      simpa [List.length_pos_iff, Nat.succ_le_iff] using hmoves
    simpa using List.card_nsmul_le_sum _ _ hone
  intro n hn
  induction rounds generalizing c n with
  | nil =>
      have hstay : c.past [] v = c := Cursor.past_nil hs
      have hhere : k c = some r := by
        rwa [List.flatten_nil, hstay] at hk
      cases n with
      | zero => exact hhere
      | succ n =>
          have hnone : p.run c (fun d =>
              if c.offset < d.offset then runRepeated p.run k n d else none) = none :=
            run_eq_none_of_not_begins (by rwa [hs])
          rw [runRepeated, hnone]
          exact hhere
  | cons w rounds ih =>
      cases n with
      | zero => simp at hn
      | succ n =>
          have hw : w ≠ [] := hmoves w (by simp)
          have hmore := ih (c := c.past w (rounds.flatten ++ v)) rfl
            (fun x hx => hmoves x (by simp [hx])) (fun x hx => hround x (by simp [hx]))
            (fun ws h => hstops ws (h.trans (List.suffix_cons _ _)))
            (by simpa using hend) (by simpa [Cursor.past_past] using hk) n (by simpa using hn)
          have hfirst := hround w (by simp) c (rounds.flatten ++ v)
            (fun d => if c.offset < d.offset then runRepeated p.run k n d else none) r
            (by simpa using hs) (hstops rounds (List.suffix_cons _ _))
            (by simpa [List.length_pos_iff, hw] using hmore)
          simp [runRepeated, hfirst]

/-! ## Keywords -/

private theorem run_letters_past {letters : Text} (hs : c.rest = u ++ v)
    (h : Spells letters u) :
    run (all (letters.map fun a => .one (Text.sameLetter a))) c k = k (c.past u v) := by
  induction h generalizing c with
  | nil =>
      have hhere : c.past [] v = c := Cursor.past_nil hs
      rw [List.map_nil, run_all_nil, hhere]
  | @cons a x letters u hx _ ih =>
      rw [List.map_cons, run_all_cons, run_one_past hs hx, ih rfl, Cursor.past_past]
      rfl

theorem run_keyword_past {letters : String} (hs : c.rest = u ++ v)
    (h : Spells letters.toList u) : run (keyword letters) c k = k (c.past u v) :=
  run_letters_past hs h

/-! ## Patterns that are sure of their span -/

/-- In front of `v` the pattern takes `u` if the continuation answers there. -/
def Takes (p : Pattern) (u v : Text) : Prop :=
  ∀ (c : Cursor) (k : Follow) (r : Cursor), c.rest = u ++ v → k (c.past u v) = some r →
    p.run c k = some r

theorem takes_empty (v : Text) : Takes .empty [] v := by
  intro c k r hs hk
  change c.rest = v at hs
  rwa [Cursor.past_nil hs] at hk

theorem Takes.seq {p q : Pattern} {w : Text} (hp : Takes p u (w ++ v)) (hq : Takes q w v) :
    Takes (.seq p q) (u ++ w) v := by
  intro c k r hs hk
  rw [run]
  refine hp c _ r (by rw [hs, List.append_assoc]) (hq _ k r rfl ?_)
  rwa [Cursor.past_past]

theorem Takes.last {p : Pattern} (hp : Takes p u v) : Takes (all [p]) u v := by
  have h := hp.seq (takes_empty v)
  rwa [List.append_nil] at h

theorem Takes.option {p : Pattern} (hp : Takes p u v) : Takes (option p) u v :=
  fun c k r hs hk => run_alt_left (hp c k r hs hk)

theorem takes_many {accepts : Char → Bool} (hu : ∀ x ∈ u, accepts x = true)
    (hv : ∀ x ∈ v.head?, accepts x = false) : Takes (.many accepts) u v :=
  fun _ _ _ hs hk => run_many_past hs hu hv hk

theorem takes_many1 {accepts : Char → Bool} (t : Text.Token accepts)
    (hv : ∀ x ∈ v.head?, accepts x = false) : Takes (many1 accepts) t.text v :=
  fun _ _ _ hs hk => run_many1_past hs t.nonempty t.accepted hv hk

theorem takes_char (x : Char) (v : Text) : Takes (char x) [x] v :=
  fun _ _ _ hs hk => by rwa [run_char_past hs]

theorem takes_spelled {letters : String} (h : Spells letters.toList u) (v : Text) :
    Takes (keyword letters) u v :=
  fun _ _ _ hs hk => by rwa [run_keyword_past hs h]

theorem takes_keyword (letters : String) (v : Text) :
    Takes (keyword letters) letters.toList v :=
  takes_spelled (spells_self _) v

theorem run_named_past {p : Pattern} {name : String} (hp : Takes p u v) (hs : c.rest = u ++ v)
    (hk : k ((c.past u v).mark name u) = some r) : run (.named name p) c k = some r := by
  rw [run]
  refine hp c _ r hs ?_
  rwa [Cursor.upTo_past (.past hs)]

end Pattern

end ProcCatalog
