import ProcCatalog.Proofs.Text.Exchange
import ProcCatalog.Text.Pattern

/-!
# Patterns over texts with exchanged characters

A pattern none of whose classes tells a character from the one it is exchanged for is met in the
exchanged text exactly where it is met in the text itself.
-/

namespace ProcCatalog

open Text

variable (e : Exchange)

/-! ## Places -/

def Cursor.exchanged (c : Cursor) : Cursor where
  before := c.before.map e.apply
  rest := c.rest.map e.apply
  offset := c.offset
  marks := c.marks.map fun m => (m.1, m.2.map e.apply)

namespace Cursor

theorem exchanged_step (c : Cursor) (x : Char) (s : Text) :
    (c.step x s).exchanged e = (c.exchanged e).step (e.apply x) (s.map e.apply) := rfl

theorem exchanged_upTo (c d : Cursor) :
    (c.exchanged e).upTo (d.exchanged e) = (c.upTo d).map e.apply :=
  List.map_take.symm

theorem exchanged_mark (d : Cursor) (name : String) (s : Text) :
    (d.mark name s).exchanged e = (d.exchanged e).mark name (s.map e.apply) := rfl

end Cursor

namespace Pattern

/-! ## Runs -/

/-- No class of the pattern tells a character from the one it is exchanged for. -/
def blindTo : Pattern → Bool
  | .empty | .wordEdge | .lineStart | .textEnd => true
  | .one accepts | .many accepts | .few accepts | .notBehind accepts => e.likens accepts
  | .seq p q | .alt p q => p.blindTo && q.blindTo
  | .repeated p | .notAhead p | .named _ p => p.blindTo

/-- What follows a pattern answers in the exchanged text what it answers in the text. -/
def FollowsExchanged (k k' : Follow) : Prop :=
  ∀ d : Cursor, k' (d.exchanged e) = (k d).map (Cursor.exchanged e)

theorem followsExchanged_some : FollowsExchanged e some some := fun _ => rfl

section

variable {e} {accepts : Char → Bool} {k k' : Follow}

private theorem map_exchanged_orElse (a b : Option Cursor) :
    (a <|> b).map (Cursor.exchanged e) =
      (a.map (Cursor.exchanged e) <|> b.map (Cursor.exchanged e)) := by
  cases a <;> rfl

private theorem runMany_exchanged (ha : e.likens accepts = true) (hk : FollowsExchanged e k k')
    (s : Text) (c : Cursor) :
    runMany accepts k' (s.map e.apply) (c.exchanged e) =
      (runMany accepts k s c).map (Cursor.exchanged e) := by
  induction s generalizing c with
  | nil => exact hk c
  | cons x s ih =>
      rw [List.map_cons, runMany, runMany, e.accepts_apply ha, ← Cursor.exchanged_step, ih, hk]
      split
      · rw [map_exchanged_orElse]
      · rfl

private theorem runFew_exchanged (ha : e.likens accepts = true) (hk : FollowsExchanged e k k')
    (s : Text) (c : Cursor) :
    runFew accepts k' (s.map e.apply) (c.exchanged e) =
      (runFew accepts k s c).map (Cursor.exchanged e) := by
  induction s generalizing c with
  | nil => exact hk c
  | cons x s ih =>
      rw [List.map_cons, runFew, runFew, e.accepts_apply ha, ← Cursor.exchanged_step, ih, hk,
        map_exchanged_orElse]
      split <;> rfl

private theorem runRepeated_exchanged {body : Cursor → Follow → Option Cursor}
    (hbody : ∀ {k k' : Follow}, FollowsExchanged e k k' → ∀ c : Cursor,
      body (c.exchanged e) k' = (body c k).map (Cursor.exchanged e))
    (hk : FollowsExchanged e k k') (rounds : Nat) (c : Cursor) :
    runRepeated body k' rounds (c.exchanged e) =
      (runRepeated body k rounds c).map (Cursor.exchanged e) := by
  induction rounds generalizing c with
  | zero => exact hk c
  | succ rounds ih =>
      have hround : FollowsExchanged e
          (fun d => if c.offset < d.offset then runRepeated body k rounds d else none)
          (fun d => if c.offset < d.offset then runRepeated body k' rounds d else none) := by
        intro d
        change (if c.offset < d.offset then runRepeated body k' rounds (d.exchanged e) else none) =
          (if c.offset < d.offset then runRepeated body k rounds d else none).map
            (Cursor.exchanged e)
        split
        · exact ih d
        · rfl
      rw [runRepeated, runRepeated, map_exchanged_orElse, hk, ← hbody hround c]
      rfl

theorem run_exchanged {p : Pattern} (hp : p.blindTo e = true) (hk : FollowsExchanged e k k')
    (c : Cursor) : p.run (c.exchanged e) k' = (p.run c k).map (Cursor.exchanged e) := by
  induction p generalizing c k k' with
  | empty => exact hk c
  | one accepts =>
      rw [run, run]
      cases hs : c.rest with
      | nil => simp [Cursor.exchanged, hs]
      | cons x s =>
          have hrest : (c.exchanged e).rest = e.apply x :: s.map e.apply := by
            rw [Cursor.exchanged, hs]
            rfl
          simp only [hrest, e.accepts_apply hp, ← Cursor.exchanged_step]
          split
          · exact hk _
          · rfl
  | many accepts => exact runMany_exchanged hp hk c.rest c
  | few accepts => exact runFew_exchanged hp hk c.rest c
  | seq p q ihp ihq =>
      rw [blindTo, Bool.and_eq_true] at hp
      exact ihp hp.1 (fun d => ihq hp.2 hk d) c
  | alt p q ihp ihq =>
      rw [blindTo, Bool.and_eq_true] at hp
      rw [run, run, map_exchanged_orElse, ihp hp.1 hk, ihq hp.2 hk]
  | repeated p ih =>
      rw [run, run, ← runRepeated_exchanged (fun hk c => ih hp hk c) hk]
      congr 1
      exact List.length_map _
  | wordEdge =>
      have hbefore : (c.exchanged e).beforeIsWord = c.beforeIsWord :=
        e.any_map e.likens_isWord c.before
      have hnext : (c.exchanged e).nextIsWord = c.nextIsWord := by
        rw [Cursor.nextIsWord, Cursor.nextIsWord, Cursor.exchanged, List.head?_map]
        exact e.any_map e.likens_isWord c.rest.head?
      rw [run, run, hbefore, hnext, hk]
      split <;> rfl
  | lineStart =>
      have hbefore : ((c.exchanged e).before = none ∨ (c.exchanged e).before = some '\n') ↔
          (c.before = none ∨ c.before = some '\n') := by
        cases h : c.before <;> simp [Cursor.exchanged, h, e.apply_eq_feed_iff]
      simp only [run, hbefore, hk c]
      split <;> rfl
  | textEnd =>
      have hrest : ((c.exchanged e).rest = [] ∨ (c.exchanged e).rest = ['\n']) ↔
          (c.rest = [] ∨ c.rest = ['\n']) := by
        simp [Cursor.exchanged, List.map_eq_cons_iff, e.apply_eq_feed_iff]
      simp only [run, hrest, hk c]
      split <;> rfl
  | notAhead p ih =>
      have hahead : (p.run (c.exchanged e) some).isSome = (p.run c some).isSome := by
        rw [ih hp (followsExchanged_some e) c, Option.isSome_map]
      rw [run, run, hahead, hk]
      split <;> rfl
  | notBehind accepts =>
      have hbefore : (c.exchanged e).before.any accepts = c.before.any accepts :=
        e.any_map hp c.before
      rw [run, run, hbefore, hk]
      split <;> rfl
  | named name p ih =>
      refine ih hp (fun d => ?_) c
      rw [Cursor.exchanged_upTo, ← Cursor.exchanged_mark]
      exact hk _

end

/-! ## Search -/

def Found.exchanged (found : Found) : Found := ⟨found.start, found.stop.exchanged e⟩

variable {e} {p : Pattern}

theorem mark?_exchanged (found : Found) (name : String) :
    (found.exchanged e).mark? name = (found.mark? name).map (List.map e.apply) := by
  rw [Found.mark?, Found.mark?, Found.exchanged, Cursor.exchanged]
  induction found.stop.marks with
  | nil => rfl
  | cons m marks ih =>
      rw [List.map_cons, List.lookup_cons, List.lookup_cons]
      split
      · rfl
      · exact ih

section

variable (hp : p.blindTo e = true)
include hp

theorem matchAt_exchanged (c : Cursor) :
    p.matchAt (c.exchanged e) = (p.matchAt c).map (Found.exchanged e) := by
  rw [matchAt, matchAt, run_exchanged hp (followsExchanged_some e) c, Option.map_map,
    Option.map_map]
  rfl

theorem isSome_matchAt_exchanged (c : Cursor) :
    (p.matchAt (c.exchanged e)).isSome = (p.matchAt c).isSome := by
  rw [matchAt_exchanged hp, Option.isSome_map]

private theorem findFrom_exchanged (before : Option Char) (offset : Nat) (s : Text) :
    p.findFrom (before.map e.apply) offset (s.map e.apply) =
      (p.findFrom before offset s).map (Found.exchanged e) := by
  induction s generalizing before offset with
  | nil => exact matchAt_exchanged hp ⟨before, [], offset, []⟩
  | cons x s ih =>
      have hmatch : p.matchAt ⟨before.map e.apply, e.apply x :: s.map e.apply, offset, []⟩ =
          (p.matchAt ⟨before, x :: s, offset, []⟩).map (Found.exchanged e) :=
        matchAt_exchanged hp ⟨before, x :: s, offset, []⟩
      rw [List.map_cons, findFrom, findFrom, hmatch]
      cases p.matchAt ⟨before, x :: s, offset, []⟩ with
      | none => exact ih (some x) (offset + 1)
      | some found => rfl

theorem find?_exchanged (s : Text) :
    p.find? (s.map e.apply) = (p.find? s).map (Found.exchanged e) :=
  findFrom_exchanged hp none 0 s

theorem occursIn_exchanged (s : Text) : p.occursIn (s.map e.apply) = p.occursIn s := by
  rw [occursIn, occursIn, find?_exchanged hp, Option.isSome_map]

private theorem allFrom_exchanged (skip : Nat) (before : Option Char) (offset : Nat) (s : Text) :
    p.allFrom skip (before.map e.apply) offset (s.map e.apply) =
      (p.allFrom skip before offset s).map (Found.exchanged e) := by
  induction s generalizing skip before offset with
  | nil => cases skip <;> rfl
  | cons x s ih =>
      cases skip with
      | succ skip => exact ih skip (some x) (offset + 1)
      | zero =>
          have hmatch : p.matchAt ⟨before.map e.apply, e.apply x :: s.map e.apply, offset, []⟩ =
              (p.matchAt ⟨before, x :: s, offset, []⟩).map (Found.exchanged e) :=
            matchAt_exchanged hp ⟨before, x :: s, offset, []⟩
          rw [List.map_cons, allFrom, allFrom, hmatch]
          cases p.matchAt ⟨before, x :: s, offset, []⟩ with
          | none => exact ih 0 (some x) (offset + 1)
          | some found =>
              exact congrArg (found.exchanged e :: ·)
                (ih (found.stop.offset - offset - 1) (some x) (offset + 1))

theorem findAll_exchanged (s : Text) :
    p.findAll (s.map e.apply) = (p.findAll s).map (Found.exchanged e) :=
  allFrom_exchanged hp 0 none 0 s

theorem textsIn_exchanged (s : Text) :
    p.textsIn (s.map e.apply) = (p.textsIn s).map (List.map e.apply) := by
  rw [textsIn, textsIn, findAll_exchanged hp, List.map_map, List.map_map]
  refine List.map_congr_left fun found _ => ?_
  simp only [Function.comp_apply, Found.exchanged, Cursor.exchanged, List.map_drop, List.map_take]

end

end Pattern

end ProcCatalog
