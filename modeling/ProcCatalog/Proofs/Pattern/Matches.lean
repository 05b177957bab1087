import ProcCatalog.Proofs.Pattern.Preference

/-!
# All places where a pattern is met

A search for all places goes on behind what it has met. What it lists are spans of the pattern.
-/

namespace ProcCatalog.Pattern

open Cursor (upTo_past)

variable {p : Pattern} {s : Text}

def Found.textIn (s : Text) (f : Found) : Text := (s.drop f.start).take (f.stop.offset - f.start)

theorem exists_spans_of_mem_findAll {f : Found} (h : f ∈ p.findAll s) :
    ∃ before, p.Spans before (f.textIn s) f.stop.rest := by
  suffices hfrom : ∀ (t : Text) (skip : Nat) (before : Option Char) (offset : Nat),
      s.drop offset = t → f ∈ p.allFrom skip before offset t →
        ∃ before, p.Spans before (f.textIn s) f.stop.rest from hfrom s 0 none 0 rfl h
  intro t
  induction t with
  | nil => simp [allFrom]
  | cons x t ih =>
      intro skip before offset hs hmem
      have hmore : s.drop (offset + 1) = t := by rw [← List.drop_drop, hs, List.drop_one, List.tail]
      cases skip with
      | succ skip => exact ih _ _ _ hmore hmem
      | zero =>
          rw [allFrom] at hmem
          split at hmem
          · rename_i found hfound
            rcases List.mem_cons.mp hmem with rfl | hmem
            · obtain ⟨hstart, u, after, hspan⟩ := matchAt_eq_some hfound
              have htext : f.textIn s = Cursor.upTo ⟨before, x :: t, offset, []⟩ f.stop := by
                rw [Found.textIn, hstart, hs]
                rfl
              rw [htext, upTo_past after]
              exact ⟨_, hspan⟩
            · exact ih _ _ _ hmore hmem
          · exact ih _ _ _ hmore hmem

/-- Whatever the pattern spans has at least one character. -/
def moves : Pattern → Bool
  | .one _ => true
  | .seq p q => moves p || moves q
  | .alt p q => moves p && moves q
  | .named _ p => moves p
  | _ => false

theorem ne_nil_of_moves {before : Option Char} {u rest : Text} (hp : p.moves = true)
    (h : p.Spans before u rest) : u ≠ [] := by
  induction p generalizing before u rest with
  | one accepts =>
      obtain ⟨x, -, rfl⟩ := h
      simp
  | seq p q ihp ihq =>
      obtain ⟨v, w, rfl, hv, hw⟩ := h
      rcases Bool.or_eq_true_iff.mp hp with hp | hq
      · simp [ihp hp hv]
      · simp [ihq hq hw]
  | alt p q ihp ihq =>
      obtain ⟨hp, hq⟩ := Bool.and_eq_true_iff.mp hp
      exact h.elim (ihp hp) (ihq hq)
  | named name p ih => exact ih hp h
  | _ => simp [moves] at hp

/-- What the pattern spans may begin with the character, if it has any. -/
def starts (x : Char) : Pattern → Bool
  | .one accepts | .many accepts | .few accepts => accepts x
  | .seq p q => starts x p || (!moves p && starts x q)
  | .alt p q => starts x p || starts x q
  | .repeated p | .named _ p => starts x p
  | .empty | .wordEdge | .lineStart | .textEnd | .notAhead _ | .notBehind _ => false

theorem starts_of_spans {before : Option Char} {x : Char} {u rest : Text}
    (h : p.Spans before (x :: u) rest) : p.starts x = true := by
  induction p generalizing before u rest with
  | one accepts =>
      obtain ⟨y, hy, hxy⟩ := h
      obtain ⟨rfl, -⟩ := List.cons.inj hxy
      exact hy
  | many accepts | few accepts => exact h x List.mem_cons_self
  | seq p q ihp ihq =>
      obtain ⟨v, w, hcut, hv, hw⟩ := h
      rw [starts, Bool.or_eq_true, Bool.and_eq_true, Bool.not_eq_true']
      cases v with
      | nil =>
          obtain rfl : x :: u = w := hcut
          refine .inr ⟨Bool.eq_false_iff.mpr fun hmoves => ?_, ihq hw⟩
          exact ne_nil_of_moves hmoves hv rfl
      | cons y v =>
          obtain ⟨rfl, -⟩ := List.cons.inj hcut
          exact .inl (ihp hv)
  | alt p q ihp ihq => exact Bool.or_eq_true_iff.mpr (h.imp ihp ihq)
  | repeated p ih =>
      change Rounds p.Spans before (x :: u) rest at h
      generalize hs : x :: u = s at h
      cases h with
      | done => cases hs
      | @more _ v w _ hne hfirst _ =>
          obtain ⟨y, v, rfl⟩ := List.exists_cons_of_ne_nil hne
          obtain ⟨rfl, -⟩ := List.cons.inj hs
          exact ih hfirst
  | named name p ih => exact ih h
  | empty => cases h
  | wordEdge | lineStart | textEnd | notAhead | notBehind => cases h.1

theorem not_begins_of_starts (hp : p.moves = true) {x : Char} (hx : p.starts x = false)
    (before : Option Char) (t : Text) : ¬ p.Begins before (x :: t) := by
  rintro ⟨u, v, hcut, hspan⟩
  obtain ⟨y, u, rfl⟩ := List.exists_cons_of_ne_nil (ne_nil_of_moves hp hspan)
  obtain ⟨rfl, -⟩ := List.cons.inj hcut
  rw [starts_of_spans hspan] at hx
  cases hx

/-- None of the characters can begin what the pattern spans. -/
theorem avoids_of_starts (hp : p.moves = true) (before : Option Char) {t : Text}
    (ht : ∀ x ∈ t, p.starts x = false) (rest : Text) : p.Avoids before t rest := by
  induction t generalizing before with
  | nil => exact avoids_nil _ _ _
  | cons x t ih =>
      obtain ⟨hx, ht⟩ := List.forall_mem_cons.mp ht
      exact avoids_cons.mpr ⟨not_begins_of_starts hp hx _ _, ih _ ht⟩

theorem occursIn_eq_false_of_avoids (hp : p.moves = true) (h : p.Avoids none s []) :
    p.occursIn s = false := by
  refine Bool.eq_false_iff.mpr fun hoccurs => ?_
  obtain ⟨a, b, rfl, hbegins⟩ := occursIn_iff.mp hoccurs
  by_cases hne : b = []
  · obtain ⟨u, v, hcut, hspan⟩ := hbegins
    exact ne_nil_of_moves hp hspan (List.append_eq_nil_iff.mp (hcut.symm.trans hne)).1
  · exact h a b rfl hne (by rwa [List.append_nil])

/-- Of branches that begin differently only one can be met. -/
theorem run_any_of_mem {ps : List Pattern} {c r : Cursor} {k : Follow} (hp : p ∈ ps)
    (hdiffer : ∀ x, (ps.map (starts x)).Pairwise fun s t => s = true → t = false)
    (hmoves : ∀ q ∈ ps, q.moves = true) (h : p.run c k = some r) :
    (any ps).run c k = some r := by
  induction ps with
  | nil => cases hp
  | cons q ps ih =>
      obtain ⟨hqmoves, hmoves⟩ := List.forall_mem_cons.mp hmoves
      rcases List.mem_cons.mp hp with rfl | hp
      · exact run_alt_left h
      · obtain ⟨u, d, after, hspan, -⟩ := exists_spans_of_run h
        obtain ⟨x, u, rfl⟩ := List.exists_cons_of_ne_nil (ne_nil_of_moves (hmoves p hp) hspan)
        have hx : q.starts x = false := by
          refine Bool.eq_false_iff.mpr fun hx => ?_
          have hother := (List.pairwise_cons.mp (hdiffer x)).1 _ (List.mem_map_of_mem hp) hx
          rw [starts_of_spans hspan] at hother
          cases hother
        have hskip : q.run c k = none := by
          refine run_eq_none_of_not_begins ?_
          rw [after.rest]
          exact not_begins_of_starts hqmoves hx _ _
        exact (run_alt_right hskip).trans
          (ih hp (fun x => (List.pairwise_cons.mp (hdiffer x)).2) hmoves)

/-! ## One place after the other -/

theorem allFrom_skip (u t : Text) (before : Option Char) (offset : Nat) :
    p.allFrom u.length before offset (u ++ t) =
      p.allFrom 0 (lastOr before u) (offset + u.length) t := by
  induction u generalizing before offset with
  | nil => rfl
  | cons x u ih =>
      rw [List.length_cons, List.cons_append, allFrom, ih, lastOr_cons, Nat.add_right_comm,
        Nat.add_assoc]

theorem allFrom_of_none {before : Option Char} {offset : Nat} {x : Char} {t : Text}
    (h : p.matchAt ⟨before, x :: t, offset, []⟩ = none) :
    p.allFrom 0 before offset (x :: t) = p.allFrom 0 (some x) (offset + 1) t := by
  rw [allFrom, h]

theorem allFrom_of_some (hmoves : p.moves = true)
    {before : Option Char} {offset : Nat} {x : Char} {t : Text} {f : Found}
    (h : p.matchAt ⟨before, x :: t, offset, []⟩ = some f) :
    p.allFrom 0 before offset (x :: t) =
        f :: p.allFrom 0 f.stop.before f.stop.offset f.stop.rest ∧
      f.stop.rest.length < (x :: t).length := by
  obtain ⟨-, u, after, hspan⟩ := matchAt_eq_some h
  cases u with
  | nil => exact absurd rfl (ne_nil_of_moves hmoves hspan)
  | cons y u =>
      obtain ⟨rfl, rfl⟩ : x = y ∧ t = u ++ f.stop.rest := by simpa using after.rest
      have hoffset : f.stop.offset = offset + (u.length + 1) := after.offset
      have hskip : f.stop.offset - offset - 1 = u.length := by omega
      have hbefore : f.stop.before = lastOr (some x) u := after.before
      constructor
      · have hoffset : f.stop.offset = offset + 1 + u.length := by omega
        rw [allFrom, h]
        simp only []
        rw [hskip, allFrom_skip, hbefore, hoffset]
      · simp

private theorem isSome_findFrom (hmoves : p.moves = true) (before : Option Char) (offset : Nat)
    (s : Text) :
    (p.findFrom before offset s).isSome = !(p.allFrom 0 before offset s).isEmpty := by
  induction s generalizing before offset with
  | nil =>
      have hnone : p.matchAt ⟨before, [], offset, []⟩ = none := by
        refine matchAt_eq_none_iff.mpr ?_
        rintro ⟨u, v, hcut, hspan⟩
        exact ne_nil_of_moves hmoves hspan (List.append_eq_nil_iff.mp hcut.symm).1
      rw [findFrom, hnone]
      rfl
  | cons x s ih =>
      rw [findFrom, allFrom]
      cases p.matchAt ⟨before, x :: s, offset, []⟩ with
      | some found => rfl
      | none => exact ih (some x) (offset + 1)

/-- A pattern occurs in a text if a search for all places finds one. -/
theorem occursIn_eq_findAll (hmoves : p.moves = true) (s : Text) :
    p.occursIn s = decide (0 < (p.findAll s).length) := by
  rw [occursIn, find?, isSome_findFrom hmoves, findAll]
  cases p.allFrom 0 none 0 s <;> rfl

/-- A search goes on behind what the pattern is sure to take. -/
theorem allFrom_of_takes {u v : Text} (hp : Takes p u v) (hne : u ≠ []) (before : Option Char)
    (offset : Nat) :
    p.allFrom 0 before offset (u ++ v) =
      ⟨offset, Cursor.past ⟨before, u ++ v, offset, []⟩ u v⟩ ::
        p.allFrom 0 (lastOr before u) (offset + u.length) v := by
  have hmatch : p.matchAt ⟨before, u ++ v, offset, []⟩ =
      some ⟨offset, Cursor.past ⟨before, u ++ v, offset, []⟩ u v⟩ := by
    rw [matchAt, hp _ some _ rfl rfl]
    rfl
  cases u with
  | nil => exact absurd rfl hne
  | cons x u =>
      rw [List.cons_append] at hmatch ⊢
      rw [allFrom, hmatch]
      simp only [Cursor.past_offset, List.length_cons]
      rw [show offset + (u.length + 1) - offset - 1 = u.length by omega, allFrom_skip,
        lastOr_cons, show offset + 1 + u.length = offset + (u.length + 1) by omega]

/-! ## The texts that are found -/

/-- The texts that are found behind a part of a text. -/
def textsBehind (p : Pattern) (before : Option Char) (a s : Text) : List Text :=
  (p.allFrom 0 before a.length s).map (Found.textIn (a ++ s))

theorem textsIn_eq_textsBehind (p : Pattern) (s : Text) : p.textsIn s = p.textsBehind none [] s :=
  rfl

theorem textsBehind_nil (p : Pattern) (before : Option Char) (a : Text) :
    p.textsBehind before a [] = [] := rfl

theorem textsBehind_of_takes {u v : Text} (hp : Takes p u v) (hne : u ≠ [])
    (before : Option Char) (a : Text) :
    p.textsBehind before a (u ++ v) = u :: p.textsBehind (lastOr before u) (a ++ u) v := by
  rw [textsBehind, allFrom_of_takes hp hne, List.map_cons, textsBehind, List.length_append,
    List.append_assoc]
  congr 1
  rw [Found.textIn, Cursor.past_offset, List.drop_left' rfl, Nat.add_sub_cancel_left,
    List.take_left' rfl]

theorem textsBehind_of_not_begins {before : Option Char} {x : Char} {t : Text}
    (h : ¬ p.Begins before (x :: t)) (a : Text) :
    p.textsBehind before a (x :: t) = p.textsBehind (some x) (a ++ [x]) t := by
  rw [textsBehind, allFrom_of_none (matchAt_eq_none_iff.mpr h), textsBehind, List.length_append,
    List.append_assoc]
  rfl

theorem textsBehind_of_starts (hmoves : p.moves = true) {u : Text}
    (hu : ∀ x ∈ u, p.starts x = false) (before : Option Char) (a v : Text) :
    p.textsBehind before a (u ++ v) = p.textsBehind (lastOr before u) (a ++ u) v := by
  induction u generalizing before a with
  | nil => rw [List.append_nil]; rfl
  | cons x u ih =>
      obtain ⟨hx, hu⟩ := List.forall_mem_cons.mp hu
      rw [List.cons_append, textsBehind_of_not_begins (not_begins_of_starts hmoves hx _ _), ih hu,
        lastOr_cons, List.append_assoc]
      rfl

/-- Where the pattern begins, one of its spans is found, and the search goes on behind it. -/
theorem textsBehind_of_begins (hmoves : p.moves = true) {before : Option Char} {x : Char} {t : Text}
    (h : p.Begins before (x :: t)) (a : Text) :
    ∃ u v, x :: t = u ++ v ∧ u ≠ [] ∧ p.Spans before u v ∧
      p.textsBehind before a (x :: t) = u :: p.textsBehind (lastOr before u) (a ++ u) v := by
  obtain ⟨f, hf⟩ : ∃ f, p.matchAt ⟨before, x :: t, a.length, []⟩ = some f := by
    rw [← Option.ne_none_iff_exists', Ne, matchAt_eq_none_iff, not_not]
    exact h
  obtain ⟨hstart, u, after, hspan⟩ := matchAt_eq_some hf
  have hcut : x :: t = u ++ f.stop.rest := after.rest
  have hoffset : f.stop.offset = a.length + u.length := after.offset
  have htext : Found.textIn (a ++ x :: t) f = u := by
    rw [Found.textIn, hstart, List.drop_left' rfl, hoffset, Nat.add_sub_cancel_left, hcut,
      List.take_left' rfl]
  refine ⟨u, f.stop.rest, hcut, ne_nil_of_moves hmoves hspan, hspan, ?_⟩
  rw [textsBehind, (allFrom_of_some hmoves hf).1, List.map_cons, htext, textsBehind,
    List.length_append, List.append_assoc, ← hcut, after.before, hoffset]

/-- The first text that is found lies behind a part in which the pattern begins nowhere. -/
theorem head?_textsIn_cases (hmoves : p.moves = true) (s : Text) :
    (p.textsIn s).head? = none ∧ p.Avoids none s [] ∨
      ∃ a u v, s = a ++ (u ++ v) ∧ p.Avoids none a (u ++ v) ∧ p.Spans (lastOr none a) u v ∧
        (p.textsIn s).head? = some u := by
  suffices hbehind : ∀ before done, (p.textsBehind before done s).head? = none ∧
      p.Avoids before s [] ∨ ∃ a u v, s = a ++ (u ++ v) ∧ p.Avoids before a (u ++ v) ∧
        p.Spans (lastOr before a) u v ∧ (p.textsBehind before done s).head? = some u from
    hbehind none []
  induction s with
  | nil => exact fun before done => .inl ⟨rfl, avoids_nil _ _ _⟩
  | cons x t ih =>
      intro before done
      by_cases hx : p.Begins before (x :: t)
      · obtain ⟨u, v, hcut, -, hspan, htexts⟩ := textsBehind_of_begins hmoves hx done
        exact .inr ⟨[], u, v, hcut, avoids_nil _ _ _, hspan, by rw [htexts, List.head?_cons]⟩
      · rw [textsBehind_of_not_begins hx]
        rcases ih (some x) (done ++ [x]) with
          ⟨hnone, havoids⟩ | ⟨a, u, v, rfl, havoids, hspan, hsome⟩
        · exact .inl ⟨hnone, avoids_cons.mpr ⟨by rwa [List.append_nil], havoids⟩⟩
        · exact .inr ⟨x :: a, u, v, rfl, avoids_cons.mpr ⟨hx, havoids⟩, hspan, hsome⟩

/-- A pattern that begins at every character of a class and takes no others leaves out nothing of
that class. -/
theorem flatten_textsIn {keeps : Char → Bool} (hmoves : p.moves = true)
    (htakes : ∀ before u rest, p.Spans before u rest → ∀ x ∈ u, keeps x = true)
    (hbegins : ∀ before x t, keeps x = true → p.Begins before (x :: t)) (s : Text) :
    (p.textsIn s).flatten = s.filter keeps := by
  suffices hbehind : ∀ (n : Nat) (s : Text), s.length ≤ n → ∀ before a,
      (p.textsBehind before a s).flatten = s.filter keeps from hbehind _ s le_rfl none []
  intro n
  induction n with
  | zero =>
      intro s hs before a
      obtain rfl := List.length_eq_zero_iff.mp (Nat.le_zero.mp hs)
      rfl
  | succ n ih =>
      intro s hs before a
      cases s with
      | nil => rfl
      | cons x t =>
          have ht : t.length ≤ n := Nat.le_of_succ_le_succ hs
          by_cases hx : p.Begins before (x :: t)
          · obtain ⟨u, v, hcut, hne, hspan, htexts⟩ := textsBehind_of_begins hmoves hx a
            have hv : v.length ≤ n := by
              have hlength := congrArg List.length hcut
              have hpos := List.length_pos_iff.mpr hne
              rw [List.length_cons, List.length_append] at hlength
              omega
            rw [htexts, List.flatten_cons, ih v hv, hcut, List.filter_append,
              List.filter_eq_self.mpr (htakes _ _ _ hspan)]
          · have hskip : keeps x = false := Bool.eq_false_iff.mpr fun h => hx (hbegins _ _ _ h)
            rw [textsBehind_of_not_begins hx, ih t ht, List.filter_cons_of_neg (by simp [hskip])]

end ProcCatalog.Pattern
