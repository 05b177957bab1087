import ProcCatalog.Proofs.Pattern.Returns

/-!
# Patterns in a longer text

A pattern that looks at nothing but the characters it takes is met in a longer text as it is met in
a part of it, as long as it takes no character that follows the part.
-/

namespace ProcCatalog

/-- The second place is the first one in a text with `more` at its end and others in front. -/
structure Cursor.Within (more : Text) (shift : Nat) (d d' : Cursor) : Prop where
  rest : d'.rest = d.rest ++ more
  offset : d'.offset = d.offset + shift
  marks : d'.marks = d.marks

theorem Cursor.Within.step {more s : Text} {shift : Nat} {d d' : Cursor}
    (h : Within more shift d d') (x : Char) :
    Within more shift (d.step x s) (d'.step x (s ++ more)) :=
  ⟨rfl, by simp [Cursor.step, h.offset, Nat.add_right_comm], h.marks⟩

namespace Pattern

open Cursor (Within)

/-- The pattern looks at nothing but what it takes, does not take `stop` and has no rounds. -/
def confined (stop : Option Char) : Pattern → Bool
  | .empty => true
  | .one accepts | .many accepts | .few accepts => !stop.any accepts
  | .seq p q | .alt p q => p.confined stop && q.confined stop
  | .named _ p => p.confined stop
  | .repeated _ | .wordEdge | .lineStart | .textEnd | .notAhead _ | .notBehind _ => false

/-! ## Spans -/

theorem spans_of_confined {p : Pattern} {before : Option Char} {u rest : Text}
    (hp : p.confined none = true) (h : p.Spans before u rest) (before' : Option Char)
    (rest' : Text) : p.Spans before' u rest' := by
  induction p generalizing before u rest before' rest' with
  | empty => exact h
  | one => exact h
  | many => exact h
  | few => exact h
  | seq p q ihp ihq =>
      rw [confined, Bool.and_eq_true] at hp
      obtain ⟨v, w, rfl, hv, hw⟩ := h
      exact ⟨v, w, rfl, ihp hp.1 hv _ _, ihq hp.2 hw _ _⟩
  | alt p q ihp ihq =>
      rw [confined, Bool.and_eq_true] at hp
      exact h.imp (ihp hp.1 · _ _) (ihq hp.2 · _ _)
  | named _ p ih => exact ih hp h _ _
  | _ => cases hp

/-- The pattern asks neither for the end of the text nor for something not to follow. -/
def endures : Pattern → Bool
  | .empty | .one _ | .many _ | .few _ | .wordEdge | .lineStart | .notBehind _ => true
  | .seq p q | .alt p q => p.endures && q.endures
  | .repeated p | .named _ p => p.endures
  | .textEnd | .notAhead _ => false

/-- What the pattern spans it spans too where more follows, unless that goes on with a word. -/
theorem spans_append_of_endures {p : Pattern} {before : Option Char} {u rest more : Text}
    (hp : p.endures = true) (hmore : more.head?.any Text.isWord = false)
    (h : p.Spans before u rest) : p.Spans before u (rest ++ more) := by
  induction p generalizing before u rest with
  | empty | one | many | few | lineStart | notBehind => exact h
  | wordEdge =>
      refine ⟨h.1, ?_⟩
      cases rest with
      | nil => rw [List.nil_append, hmore]; exact h.2
      | cons x rest => exact h.2
  | seq p q ihp ihq =>
      rw [endures, Bool.and_eq_true] at hp
      obtain ⟨v, w, rfl, hv, hw⟩ := h
      refine ⟨v, w, rfl, ?_, ihq hp.2 hw⟩
      rw [← List.append_assoc]
      exact ihp hp.1 hv
  | alt p q ihp ihq =>
      rw [endures, Bool.and_eq_true] at hp
      exact h.imp (ihp hp.1) (ihq hp.2)
  | repeated p ih =>
      change Rounds p.Spans before u rest at h
      change Rounds p.Spans before u (rest ++ more)
      induction h with
      | done => exact .done _ _
      | more moves first _ ihOthers =>
          refine .more moves ?_ ihOthers
          rw [← List.append_assoc]
          exact ih hp first
  | named _ p ih => exact ih hp h
  | textEnd | notAhead => cases hp

theorem occursIn_append_of_endures {p : Pattern} {s more : Text} (hp : p.endures = true)
    (hmore : more.head?.any Text.isWord = false) (h : p.occursIn s = true) :
    p.occursIn (s ++ more) = true := by
  obtain ⟨a, b, rfl, u, rest, rfl, hspan⟩ := occursIn_iff.mp h
  refine occursIn_iff.mpr ⟨a, u ++ rest ++ more, by simp, u, rest ++ more, by simp, ?_⟩
  exact spans_append_of_endures hp hmore hspan

/-! ## Runs -/

/-- What follows a pattern answers alike wherever the pattern can end. -/
def FollowAlike (R : Cursor → Cursor → Prop) (more : Text) (shift : Nat) (c c' : Cursor)
    (k k' : Follow) : Prop :=
  ∀ u d d', c.After u d → c'.After u d' → Within more shift d d' → Option.Rel R (k d) (k' d')

section

variable {R : Cursor → Cursor → Prop} {more : Text} {shift : Nat} {c c' : Cursor} {k k' : Follow}
  {accepts : Char → Bool}

theorem FollowAlike.later {u : Text} {d d' : Cursor} (h : FollowAlike R more shift c c' k k')
    (after : c.After u d) (after' : c'.After u d') : FollowAlike R more shift d d' k k' :=
  fun _ _ _ later later' hwithin => h _ _ _ (after.trans later) (after'.trans later') hwithin

theorem FollowAlike.here (h : FollowAlike R more shift c c' k k') (hc : Within more shift c c') :
    Option.Rel R (k c) (k' c') :=
  h [] c c' (.refl c) (.refl c') hc

/-- One character on, in both texts. -/
theorem FollowAlike.next (h : FollowAlike R more shift c c' k k') (hc : Within more shift c c')
    {x : Char} {s : Text} (hs : c.rest = x :: s) :
    FollowAlike R more shift (c.step x s) (c'.step x (s ++ more)) k k' :=
  h.later (.step hs) (.step (by rw [hc.rest, hs]; rfl))

private theorem rel_runMany_within (hstop : more.head?.any accepts = false) {s : Text}
    (hs : c.rest = s) (hc : Within more shift c c') (hk : FollowAlike R more shift c c' k k') :
    Option.Rel R (runMany accepts k s c) (runMany accepts k' (s ++ more) c') := by
  induction s generalizing c c' with
  | nil =>
      cases more with
      | nil => exact hk.here hc
      | cons x more =>
          have hx : accepts x = false := hstop
          simpa only [List.nil_append, runMany, hx, Bool.false_eq_true, if_false] using hk.here hc
  | cons x s ih =>
      rw [List.cons_append, runMany, runMany]
      split
      · exact rel_orElse (ih rfl (hc.step x) (hk.next hc hs)) (hk.here hc)
      · exact hk.here hc

private theorem rel_runFew_within (hstop : more.head?.any accepts = false) {s : Text}
    (hs : c.rest = s) (hc : Within more shift c c') (hk : FollowAlike R more shift c c' k k') :
    Option.Rel R (runFew accepts k s c) (runFew accepts k' (s ++ more) c') := by
  induction s generalizing c c' with
  | nil =>
      cases more with
      | nil => exact hk.here hc
      | cons x more =>
          have hx : accepts x = false := hstop
          simpa [runFew, hx] using hk.here hc
  | cons x s ih =>
      rw [List.cons_append, runFew, runFew]
      refine rel_orElse (hk.here hc) ?_
      split
      · exact ih rfl (hc.step x) (hk.next hc hs)
      · exact .none

theorem rel_run_within {p : Pattern} (hp : p.confined more.head? = true)
    (hc : Within more shift c c') (hk : FollowAlike R more shift c c' k k') :
    Option.Rel R (p.run c k) (p.run c' k') := by
  induction p generalizing c c' k k' with
  | empty => exact hk.here hc
  | one accepts =>
      have hstop : more.head?.any accepts = false := by simpa [confined] using hp
      rw [run, run, hc.rest]
      cases hs : c.rest with
      | nil =>
          cases more with
          | nil => exact .none
          | cons x more =>
              have hx : accepts x = false := hstop
              simp [hx]
      | cons x s =>
          simp only [List.cons_append]
          split
          · exact (hk.next hc hs).here (hc.step x)
          · exact .none
  | many accepts =>
      rw [run, run, hc.rest]
      exact rel_runMany_within (by simpa [confined] using hp) rfl hc hk
  | few accepts =>
      rw [run, run, hc.rest]
      exact rel_runFew_within (by simpa [confined] using hp) rfl hc hk
  | seq p q ihp ihq =>
      rw [confined, Bool.and_eq_true] at hp
      exact ihp hp.1 hc fun u d d' after after' hd => ihq hp.2 hd (hk.later after after')
  | alt p q ihp ihq =>
      rw [confined, Bool.and_eq_true] at hp
      exact rel_orElse (ihp hp.1 hc hk) (ihq hp.2 hc hk)
  | named name p ih =>
      refine ih hp hc fun u d d' after after' hd =>
        hk u _ _ (after.mark _ _) (after'.mark _ _) ⟨hd.rest, hd.offset, ?_⟩
      simp only [Cursor.mark, Cursor.upTo_past after, Cursor.upTo_past after', hd.marks]
  | _ => cases hp

/-! ## Search -/

variable {p : Pattern}

theorem rel_matchAt_within (hp : p.confined more.head? = true) (hc : Within more shift c c') :
    Option.Rel (fun f f' => Within more shift f.stop f'.stop) (p.matchAt c) (p.matchAt c') :=
  rel_map (rel_run_within (R := Within more shift) hp hc fun _ _ _ _ _ hd => .some hd)
    fun _ _ h => h

theorem exists_matchAt_within (hp : p.confined more.head? = true) (hc : Within more shift c c')
    {found : Found} (h : p.matchAt c = some found) :
    ∃ found', p.matchAt c' = some found' ∧ Within more shift found.stop found'.stop := by
  have hmatch := rel_matchAt_within hp hc
  rw [h] at hmatch
  generalize p.matchAt c' = r at hmatch
  cases hmatch with
  | some hstop => exact ⟨_, rfl, hstop⟩

variable {s : Text} {before : Option Char} {offset : Nat}

/-- A search that is in vain in a part of a text goes on behind it. -/
theorem findFrom_append_of_eq_none (hp : p.confined more.head? = true)
    (h : p.findFrom before offset s = none) (before' : Option Char) (shift : Nat) :
    p.findFrom before' (offset + shift) (s ++ more) =
      p.findFrom (lastOr before' s) (offset + shift + s.length) more := by
  induction s generalizing before offset before' with
  | nil => rfl
  | cons x s ih =>
      have hplace : Within more shift ⟨before, x :: s, offset, []⟩
          ⟨before', x :: (s ++ more), offset + shift, []⟩ := ⟨rfl, rfl, rfl⟩
      have hmatch := rel_matchAt_within hp hplace
      cases hfound : p.matchAt ⟨before, x :: s, offset, []⟩ with
      | some found => simp [findFrom_of_matchAt hfound] at h
      | none =>
          rw [hfound] at hmatch
          rw [findFrom, hfound] at h
          have hlength : offset + shift + (x :: s).length = offset + 1 + shift + s.length := by
            rw [List.length_cons]
            omega
          rw [List.cons_append, findFrom, eq_none_of_rel hmatch, lastOr_cons, hlength,
            Nat.add_right_comm offset]
          exact ih h (some x)

/-- What a search finds in a part of a text it finds in the text, if it comes to the part. -/
theorem exists_findFrom_append (hp : p.confined more.head? = true) {found : Found}
    (h : p.findFrom before offset s = some found) (before' : Option Char) (shift : Nat) :
    ∃ found', p.findFrom before' (offset + shift) (s ++ more) = some found' ∧
      Within more shift found.stop found'.stop := by
  induction s generalizing before offset before' with
  | nil =>
      have hplace : Within more shift ⟨before, [], offset, []⟩
          ⟨before', more, offset + shift, []⟩ := ⟨rfl, rfl, rfl⟩
      obtain ⟨found', hmatch, hstop⟩ := exists_matchAt_within hp hplace h
      exact ⟨found', findFrom_of_matchAt hmatch, hstop⟩
  | cons x s ih =>
      have hplace : Within more shift ⟨before, x :: s, offset, []⟩
          ⟨before', x :: (s ++ more), offset + shift, []⟩ := ⟨rfl, rfl, rfl⟩
      cases hfound : p.matchAt ⟨before, x :: s, offset, []⟩ with
      | some other =>
          obtain rfl : other = found := Option.some.inj ((findFrom_of_matchAt hfound).symm.trans h)
          obtain ⟨found', hmatch, hstop⟩ := exists_matchAt_within hp hplace hfound
          exact ⟨found', findFrom_of_matchAt hmatch, hstop⟩
      | none =>
          have hmatch := rel_matchAt_within hp hplace
          rw [hfound] at hmatch
          rw [findFrom, hfound] at h
          rw [List.cons_append, findFrom, eq_none_of_rel hmatch, Nat.add_right_comm]
          exact ih h (some x)

end

end Pattern

end ProcCatalog
