import ProcCatalog.Proofs.Pattern.Context
import ProcCatalog.Proofs.Pattern.Matches

/-!
# Patterns in parted texts

A pattern stays in front of a text if it is met there as it is met where nothing follows. It may
try to go on into that text, but only in vain. If it stays in front of a separator and what follows
it, then what is found in the whole is what is found on either side.
-/

namespace ProcCatalog.Pattern

open Cursor (Within)

variable {more : Text} {p q : Pattern} {accepts : Char → Bool} {close stop : Char}

/-- A run in front of `more` goes as it does at the end of a text. Of what stands before, only
whether it is a word character may matter. -/
def Stays (more : Text) (p : Pattern) : Prop :=
  ∀ ⦃R : Cursor → Cursor → Prop⦄ ⦃shift : Nat⦄ ⦃c c' : Cursor⦄ ⦃k k' : Follow⦄,
    c'.beforeIsWord = c.beforeIsWord → Within more shift c c' →
      FollowAlike R more shift c c' k k' → Option.Rel R (p.run c k) (p.run c' k')

/-! ## Patterns that stay -/

private theorem beforeIsWord_eq {c c' d d' : Cursor} {u : Text}
    (h : c'.beforeIsWord = c.beforeIsWord) (after : c.After u d) (after' : c'.After u d') :
    d'.beforeIsWord = d.beforeIsWord := by
  rw [Cursor.beforeIsWord, Cursor.beforeIsWord, after.before, after'.before]
  cases u with
  | nil => exact h
  | cons x u => rfl

namespace Stays

theorem of_confined (hp : p.confined more.head? = true) : Stays more p :=
  fun _ _ _ _ _ _ _ hc hk => rel_run_within hp hc hk

theorem seq (hp : Stays more p) (hq : Stays more q) : Stays more (.seq p q) :=
  fun _ _ _ _ _ _ hbefore hc hk => hp hbefore hc fun _ _ _ after after' hd =>
    hq (beforeIsWord_eq hbefore after after') hd (hk.later after after')

theorem alt (hp : Stays more p) (hq : Stays more q) : Stays more (.alt p q) :=
  fun _ _ _ _ _ _ hbefore hc hk => rel_orElse (hp hbefore hc hk) (hq hbefore hc hk)

theorem empty : Stays more .empty := fun _ _ _ _ _ _ _ hc hk => hk.here hc

theorem option (hp : Stays more p) : Stays more (option p) := hp.alt .empty

theorem all {ps : List Pattern} (hps : ∀ p ∈ ps, Stays more p) : Stays more (all ps) := by
  induction ps with
  | nil => exact .empty
  | cons p ps ih =>
      obtain ⟨hp, hps⟩ := List.forall_mem_cons.mp hps
      exact hp.seq (ih hps)

theorem named (name : String) (hp : Stays more p) : Stays more (.named name p) := by
  intro R shift c c' k k' hbefore hc hk
  refine hp hbefore hc fun u d d' after after' hd =>
    hk u _ _ (after.mark _ _) (after'.mark _ _) ⟨hd.rest, hd.offset, ?_⟩
  simp only [Cursor.mark, Cursor.upTo_past after, Cursor.upTo_past after', hd.marks]

theorem notAhead (hp : Stays more p) : Stays more (.notAhead p) := by
  intro R shift c c' k k' hbefore hc hk
  have hahead : Option.Rel (fun _ _ => True) (p.run c some) (p.run c' some) :=
    hp hbefore hc fun _ _ _ _ _ _ => .some trivial
  simp only [run, isSome_eq_of_rel hahead]
  split
  · exact .none
  · exact hk.here hc

theorem wordEdge (hmore : more.head?.any Text.isWord = false) : Stays more .wordEdge := by
  intro R shift c c' k k' hbefore hc hk
  have hnext : c'.nextIsWord = c.nextIsWord := by
    rw [Cursor.nextIsWord, Cursor.nextIsWord, hc.rest]
    cases c.rest with
    | nil => exact hmore
    | cons x s => rfl
  simp only [run, hbefore, hnext]
  split
  · exact hk.here hc
  · exact .none

end Stays

/-! ## Runs that have to be closed -/

/-- What follows answers only in front of one character. -/
def Awaits (close : Char) (k : Follow) : Prop :=
  ∀ d : Cursor, d.rest.head? ≠ some close → k d = none

private theorem awaits_char (q : Pattern) (k : Follow) :
    Awaits close fun d => (Pattern.seq (char close) q).run d k := by
  intro d hd
  refine run_eq_none_of_not_begins ?_
  rintro ⟨_, rest, hcut, _, _, rfl, hclose, -⟩
  rw [spans_char.mp hclose] at hcut
  exact hd (by rw [hcut]; rfl)

private theorem runMany_eq_none {k : Follow} (hk : Awaits close k) (hclose : accepts close = false)
    {s : Text} (hs : (s.dropWhile accepts).head? ≠ some close) {c : Cursor} (hc : c.rest = s) :
    runMany accepts k s c = none := by
  induction s generalizing c with
  | nil => exact hk c (by simp [hc])
  | cons x s ih =>
      rw [runMany]
      split
      · rename_i hx
        rw [List.dropWhile_cons_of_pos hx] at hs
        have hne : x ≠ close := by
          rintro rfl
          simp [hclose] at hx
        rw [ih hs rfl, hk c (by simpa [hc] using hne)]
        rfl
      · rename_i hx
        rw [List.dropWhile_cons_of_neg hx] at hs
        exact hk c (by rwa [hc])

/-- Behind the end of the text the run is not closed, if `more` does not close it. -/
private theorem rel_runMany_closed {R : Cursor → Cursor → Prop} {shift : Nat} {k k' : Follow}
    (hclose : accepts close = false) (hmore : (more.dropWhile accepts).head? ≠ some close)
    (hk : Awaits close k) (hk' : Awaits close k') {s : Text} {d d' : Cursor} (hs : d.rest = s)
    (hd : Within more shift d d') (halike : FollowAlike R more shift d d' k k') :
    Option.Rel R (runMany accepts k s d) (runMany accepts k' (s ++ more) d') := by
  induction s generalizing d d' with
  | nil =>
      have hd' : d'.rest = more := by rw [hd.rest, hs, List.nil_append]
      rw [List.nil_append, runMany_eq_none hk' hclose hmore hd', runMany, hk d (by simp [hs])]
      exact .none
  | cons x s ih =>
      rw [List.cons_append, runMany, runMany]
      split
      · exact rel_orElse (ih rfl (hd.step x) (halike.next hd hs)) (halike.here hd)
      · exact halike.here hd

/-- A run of characters that has to be closed, and that `more` does not close. -/
theorem Stays.closed (hclose : accepts close = false)
    (hmore : (more.dropWhile accepts).head? ≠ some close) (hq : Stays more q) :
    Stays more (.seq (many1 accepts) (.seq (char close) q)) := by
  have hfirst : more.head? ≠ some close := by
    intro h
    obtain ⟨t, rfl⟩ := List.head?_eq_some_iff.mp h
    exact hmore (by rw [List.dropWhile_cons_of_neg (by simp [hclose])]; rfl)
  have hchar : Stays more (char close) := .of_confined (by
    cases more with
    | nil => rfl
    | cons x more => simpa [confined, char] using hfirst)
  have hrest : Stays more (.seq (char close) q) := hchar.seq hq
  intro R shift c c' k k' hbefore hc hk
  -- the closing character and what follows it
  let K : Follow := fun d => (Pattern.seq (char close) q).run d k
  let K' : Follow := fun d => (Pattern.seq (char close) q).run d k'
  have hK : FollowAlike R more shift c c' K K' := fun u d d' after after' hd =>
    hrest (beforeIsWord_eq hbefore after after') hd (hk.later after after')
  change Option.Rel R ((Pattern.one accepts).run c fun d => runMany accepts K d.rest d)
    ((Pattern.one accepts).run c' fun d => runMany accepts K' d.rest d)
  rw [run, run, hc.rest]
  cases hs : c.rest with
  | cons x s =>
      simp only [List.cons_append]
      split
      · exact rel_runMany_closed hclose hmore (awaits_char q k) (awaits_char q k') rfl (hc.step x)
          (hK.next hc hs)
      · exact .none
  | nil =>
      cases hmore' : more with
      | nil => exact .none
      | cons x t =>
          simp only [List.nil_append]
          split
          · rename_i hx
            have ht : (t.dropWhile accepts).head? ≠ some close := by
              rwa [hmore', List.dropWhile_cons_of_pos hx] at hmore
            rw [Cursor.step_rest, runMany_eq_none (awaits_char q k') hclose ht rfl]
            exact .none
          · exact .none

/-! ## Rounds -/

private theorem lt_offset_iff {c d : Cursor} {u : Text} (after : c.After u d) :
    c.offset < d.offset ↔ u ≠ [] := by
  rw [after.offset, Nat.lt_add_right_iff_pos, List.length_pos_iff]

/-- Where nothing is left of the text no round is made, though more follows. -/
private theorem run_round_eq_none (hp : Stays more p) {shift : Nat} {c c' : Cursor}
    (hbefore : c'.beforeIsWord = c.beforeIsWord) (hc : Within more shift c c') (hs : c.rest = [])
    (k k' : Follow) :
    p.run c (fun d => if c.offset < d.offset then k d else none) = none ∧
      p.run c' (fun d => if c'.offset < d.offset then k' d else none) = none := by
  have hstill {u : Text} {d : Cursor} (after : c.After u d) : u = [] :=
    (List.append_eq_nil_iff.mp (after.rest.symm.trans hs)).1
  have hnone : p.run c (fun d => if c.offset < d.offset then k d else none) = none :=
    run_eq_none fun u d after _ => if_neg fun h => (lt_offset_iff after).mp h (hstill after)
  have hrel : Option.Rel (fun _ _ => True)
      (p.run c fun d => if c.offset < d.offset then k d else none)
      (p.run c' fun d => if c'.offset < d.offset then k' d else none) := by
    refine hp hbefore hc fun u d d' after after' _ => ?_
    simp only [lt_offset_iff after, lt_offset_iff after', hstill after, ne_eq, not_true_eq_false,
      if_false]
    exact .none
  rw [hnone] at hrel
  exact ⟨hnone, eq_none_of_rel hrel⟩

/-- There may be more rounds than characters are left. -/
private theorem rel_runRepeated (hp : Stays more p) {R : Cursor → Cursor → Prop} {shift : Nat}
    {k k' : Follow} {n n' : Nat} {c c' : Cursor} (hbefore : c'.beforeIsWord = c.beforeIsWord)
    (hc : Within more shift c c') (hn : c.rest.length ≤ n) (hn' : c.rest.length ≤ n')
    (hk : FollowAlike R more shift c c' k k') :
    Option.Rel R (runRepeated p.run k n c) (runRepeated p.run k' n' c') := by
  induction n generalizing n' c c' with
  | zero =>
      have hs : c.rest = [] := List.length_eq_zero_iff.mp (by omega)
      cases n' with
      | zero => exact hk.here hc
      | succ n' =>
          rw [runRepeated, runRepeated, (run_round_eq_none hp hbefore hc hs k _).2]
          exact hk.here hc
  | succ n ih =>
      cases n' with
      | zero =>
          have hs : c.rest = [] := List.length_eq_zero_iff.mp (by omega)
          rw [runRepeated, runRepeated, (run_round_eq_none hp hbefore hc hs _ k').1]
          exact hk.here hc
      | succ n' =>
          rw [runRepeated, runRepeated]
          refine rel_orElse (hp hbefore hc fun u d d' after after' hd => ?_) (hk.here hc)
          simp only [lt_offset_iff after, lt_offset_iff after']
          split
          · rename_i hmoves
            have hlength := congrArg List.length after.rest
            have hpos := List.length_pos_iff.mpr hmoves
            rw [List.length_append] at hlength
            exact ih (beforeIsWord_eq hbefore after after') hd (by omega) (by omega)
              (hk.later after after')
          · exact .none

theorem Stays.repeated (hp : Stays more p) : Stays more (.repeated p) :=
  fun _ _ _ _ _ _ hbefore hc hk => rel_runRepeated hp hbefore hc le_rfl
    (by rw [hc.rest, List.length_append]; omega) hk

/-! ## Patterns that stop at a character -/

/-- The pattern takes no `stop`, and of what stands around it sees no more than where words end. -/
def stops (stop : Char) : Pattern → Bool
  | .empty => true
  | .one accepts | .many accepts | .few accepts => !accepts stop
  | .wordEdge => !Text.isWord stop
  | .seq p q | .alt p q => p.stops stop && q.stops stop
  | .repeated p | .notAhead p | .named _ p => p.stops stop
  | .lineStart | .textEnd | .notBehind _ => false

theorem Stays.of_stops (hp : p.stops stop = true) (hmore : ∀ x ∈ more.head?, x = stop) :
    Stays more p := by
  have hany {accepts : Char → Bool} (h : accepts stop = false) :
      more.head?.any accepts = false := by
    cases more with
    | nil => rfl
    | cons x more => exact (hmore x rfl).symm ▸ h
  induction p with
  | empty => exact .empty
  | one accepts | many accepts | few accepts =>
      exact .of_confined (by simpa [confined] using hany (by simpa [stops] using hp))
  | seq p q ihp ihq =>
      rw [stops, Bool.and_eq_true] at hp
      exact (ihp hp.1).seq (ihq hp.2)
  | alt p q ihp ihq =>
      rw [stops, Bool.and_eq_true] at hp
      exact (ihp hp.1).alt (ihq hp.2)
  | repeated p ih => exact (ih hp).repeated
  | wordEdge => exact .wordEdge (hany (by simpa [stops] using hp))
  | notAhead p ih => exact (ih hp).notAhead
  | named name p ih => exact (ih hp).named name
  | _ => cases hp

theorem starts_of_stops (hp : p.stops stop = true) : p.starts stop = false := by
  induction p with
  | seq p q ihp ihq =>
      rw [stops, Bool.and_eq_true] at hp
      simp [starts, ihp hp.1, ihq hp.2]
  | alt p q ihp ihq =>
      rw [stops, Bool.and_eq_true] at hp
      simp [starts, ihp hp.1, ihq hp.2]
  | one | many | few => simpa [stops, starts] using hp
  | repeated p ih | named _ p ih => exact ih hp
  | empty | wordEdge | notAhead => rfl
  | _ => cases hp

/-! ## Searching both texts -/

private theorem rel_matchAt_closed (hp : Stays more p) {shift : Nat} {c c' : Cursor}
    (hc : Within more shift c c') (hbefore : c'.beforeIsWord = c.beforeIsWord) :
    Option.Rel (fun f f' => Within more shift f.stop f'.stop) (p.matchAt c) (p.matchAt c') :=
  rel_map (hp (R := Within more shift) hbefore hc fun _ _ _ _ _ hd => .some hd) fun _ _ h => h

def marksOf (found : List Found) : List (List (String × Text)) := found.map fun f => f.stop.marks

/-- A search finds in front of `more` what it finds in the text alone, and goes on behind it. -/
theorem marksOf_allFrom_append (hp : Stays more p) {s : Text} {skip : Nat}
    (hskip : skip ≤ s.length) {before before' : Option Char}
    (hbefore : before'.any Text.isWord = before.any Text.isWord) (offset shift : Nat) :
    marksOf (p.allFrom skip before' (offset + shift) (s ++ more)) =
      marksOf (p.allFrom skip before offset s) ++
        marksOf (p.allFrom 0 (lastOr before' s) (offset + shift + s.length) more) := by
  induction s generalizing skip before before' offset with
  | nil =>
      obtain rfl : skip = 0 := by simpa using hskip
      rfl
  | cons x s ih =>
      have hlength : offset + shift + (x :: s).length = offset + 1 + shift + s.length := by
        rw [List.length_cons]
        omega
      have hsame : (some x).any Text.isWord = (some x).any Text.isWord := rfl
      rw [List.cons_append, lastOr_cons, hlength]
      cases skip with
      | succ skip =>
          rw [allFrom, allFrom, Nat.add_right_comm offset]
          exact ih (Nat.le_of_succ_le_succ hskip) hsame _
      | zero =>
          have hplace : Within more shift ⟨before, x :: s, offset, []⟩
              ⟨before', x :: (s ++ more), offset + shift, []⟩ := ⟨rfl, rfl, rfl⟩
          have hmatch := rel_matchAt_closed hp hplace hbefore
          rw [allFrom, allFrom]
          cases hfound : p.matchAt ⟨before, x :: s, offset, []⟩ with
          | none =>
              rw [hfound] at hmatch
              rw [eq_none_of_rel hmatch, Nat.add_right_comm offset]
              exact ih (Nat.zero_le _) hsame _
          | some found =>
              rw [hfound] at hmatch
              generalize p.matchAt ⟨before', x :: (s ++ more), offset + shift, []⟩ = r at hmatch
              cases hmatch with
              | @some _ found' hstop =>
                  obtain ⟨-, u, after, -⟩ := matchAt_eq_some hfound
                  have hu : (u ++ found.stop.rest).length = (x :: s).length :=
                    congrArg List.length after.rest.symm
                  have hend : found.stop.offset = offset + u.length := after.offset
                  rw [List.length_append, List.length_cons] at hu
                  have hrest : found'.stop.offset - (offset + shift) - 1 =
                      found.stop.offset - offset - 1 := by
                    rw [hstop.offset]
                    omega
                  have hskip : found.stop.offset - offset - 1 ≤ s.length := by omega
                  have hmore := ih hskip hsame (offset + 1)
                  simp only [marksOf, List.map_cons, List.cons_append, hstop.marks, hrest,
                    Nat.add_right_comm offset shift 1] at hmore ⊢
                  rw [hmore]

theorem allFrom_of_avoids {before : Option Char} {s rest : Text} (h : p.Avoids before s rest)
    (offset : Nat) :
    p.allFrom 0 before offset (s ++ rest) =
      p.allFrom 0 (lastOr before s) (offset + s.length) rest := by
  induction s generalizing before offset with
  | nil => rfl
  | cons x s ih =>
      obtain ⟨hx, hs⟩ := avoids_cons.mp h
      rw [List.cons_append, allFrom_of_none (matchAt_eq_none_iff.mpr hx), ih hs, lastOr_cons,
        List.length_cons, Nat.add_right_comm, Nat.add_assoc]

/-- What is found in two texts that `part` parts is what is found in the one and in the other. -/
theorem marksOf_findAll_append {part a b : Text} (hfirst : Stays (part ++ b) p)
    (hsecond : Stays [] p) (havoids : p.Avoids (lastOr none a) part b)
    (hpart : (lastOr (lastOr none a) part).any Text.isWord = false) :
    marksOf (p.findAll (a ++ (part ++ b))) = marksOf (p.findAll a) ++ marksOf (p.findAll b) := by
  have hsame : (none : Option Char).any Text.isWord = (none : Option Char).any Text.isWord := rfl
  have hother : (lastOr (lastOr none a) part).any Text.isWord =
      (none : Option Char).any Text.isWord := hpart
  have hleft := marksOf_allFrom_append hfirst (Nat.zero_le a.length) hsame 0 0
  have hright := marksOf_allFrom_append hsecond (Nat.zero_le b.length) hother 0
    (a.length + part.length)
  rw [findAll, hleft, Nat.add_zero, Nat.zero_add, allFrom_of_avoids havoids]
  rw [List.append_nil, allFrom, Nat.zero_add] at hright
  rw [hright, findAll, findAll]
  simp [marksOf]

theorem marksOf_findAll_parted (hp : p.stops stop = true) (hmoves : p.moves = true)
    (hword : Text.isWord stop = false) (a b : Text) :
    marksOf (p.findAll (a ++ stop :: b)) = marksOf (p.findAll a) ++ marksOf (p.findAll b) := by
  have hfirst : Stays ([stop] ++ b) p := .of_stops hp (by simp)
  have havoids : p.Avoids (lastOr none a) [stop] b :=
    avoids_of_starts hmoves _ (by simp [starts_of_stops hp]) _
  exact marksOf_findAll_append hfirst (.of_stops hp (by simp)) havoids hword

theorem length_findAll_parted (hp : p.stops stop = true) (hmoves : p.moves = true)
    (hword : Text.isWord stop = false) (a b : Text) :
    (p.findAll (a ++ stop :: b)).length = (p.findAll a).length + (p.findAll b).length := by
  have hmarks := congrArg List.length (marksOf_findAll_parted hp hmoves hword a b)
  simpa [marksOf] using hmarks

theorem occursIn_parted (hp : p.stops stop = true) (hmoves : p.moves = true)
    (hword : Text.isWord stop = false) (a b : Text) :
    p.occursIn (a ++ stop :: b) = (p.occursIn a || p.occursIn b) := by
  rw [occursIn_eq_findAll hmoves, occursIn_eq_findAll hmoves, occursIn_eq_findAll hmoves,
    length_findAll_parted hp hmoves hword, ← Bool.decide_or]
  exact decide_eq_decide.mpr (by omega)

end ProcCatalog.Pattern
