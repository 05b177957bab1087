import ProcCatalog.Value.Basic
import Mathlib

/-!
# Values in values

A list or an object holds values, and these hold others. What is true of a value if it is true of
those it holds is true of every value.
-/

namespace ProcCatalog.Value

/-- Induction on the values that a value holds. -/
theorem induction {motive : Value → Prop} (null : motive null) (bool : ∀ b, motive (bool b))
    (int : ∀ n, motive (int n)) (real : ∀ x, motive (real x)) (str : ∀ s, motive (str s))
    (arr : ∀ vs, (∀ v ∈ vs, motive v) → motive (arr vs))
    (obj : ∀ ms, (∀ m ∈ ms, motive m.2) → motive (obj ms)) (v : Value) : motive v :=
  match v with
  | .null => null
  | .bool b => bool b
  | .int n => int n
  | .real x => real x
  | .str s => str s
  | .arr vs => arr vs fun v _ => induction null bool int real str arr obj v
  | .obj ms => obj ms fun m _ => induction null bool int real str arr obj m.2
-- What a list holds is smaller than the list; a member is found behind its key.
termination_by v
decreasing_by
  · have := List.sizeOf_lt_of_mem ‹v ∈ vs›
    simp only [Value.arr.sizeOf_spec]
    omega
  · have := List.sizeOf_lt_of_mem ‹m ∈ ms›
    obtain ⟨k, v⟩ := m
    simp only [Value.obj.sizeOf_spec, Prod.mk.sizeOf_spec] at this ⊢
    omega

/-! ## All values in a value -/

variable {P Q : Value → Prop}

mutual

/-- A property of a value and of all values in it. -/
def Everywhere (P : Value → Prop) : Value → Prop
  | arr vs => P (arr vs) ∧ ItemsEverywhere P vs
  | obj ms => P (obj ms) ∧ MembersEverywhere P ms
  | v => P v

def ItemsEverywhere (P : Value → Prop) : List Value → Prop
  | [] => True
  | v :: vs => v.Everywhere P ∧ ItemsEverywhere P vs

def MembersEverywhere (P : Value → Prop) : List (RawText × Value) → Prop
  | [] => True
  | (_, v) :: ms => v.Everywhere P ∧ MembersEverywhere P ms

end

theorem everywhere_arr {vs : List Value} :
    (arr vs).Everywhere P ↔ P (arr vs) ∧ ∀ v ∈ vs, v.Everywhere P := by
  have hitems : ItemsEverywhere P vs ↔ ∀ v ∈ vs, v.Everywhere P := by
    induction vs with
    | nil => simp [ItemsEverywhere]
    | cons v vs ih => rw [ItemsEverywhere, ih, List.forall_mem_cons]
  rw [Everywhere, hitems]

theorem everywhere_obj {ms : List (RawText × Value)} :
    (obj ms).Everywhere P ↔ P (obj ms) ∧ ∀ m ∈ ms, m.2.Everywhere P := by
  have hmembers : MembersEverywhere P ms ↔ ∀ m ∈ ms, m.2.Everywhere P := by
    induction ms with
    | nil => simp [MembersEverywhere]
    | cons m ms ih => rw [MembersEverywhere, ih, List.forall_mem_cons]
  rw [Everywhere, hmembers]

section

variable [DecidablePred P]

mutual

def decideEverywhere : (v : Value) → Decidable (v.Everywhere P)
  | arr vs =>
    have := decideItems vs
    inferInstanceAs (Decidable (P (arr vs) ∧ ItemsEverywhere P vs))
  | obj ms =>
    have := decideMembers ms
    inferInstanceAs (Decidable (P (obj ms) ∧ MembersEverywhere P ms))
  | null => inferInstanceAs (Decidable (P null))
  | bool b => inferInstanceAs (Decidable (P (bool b)))
  | int n => inferInstanceAs (Decidable (P (int n)))
  | real x => inferInstanceAs (Decidable (P (real x)))
  | str s => inferInstanceAs (Decidable (P (str s)))

def decideItems : (vs : List Value) → Decidable (ItemsEverywhere P vs)
  | [] => .isTrue trivial
  | v :: vs =>
    have := decideEverywhere v
    have := decideItems vs
    inferInstanceAs (Decidable (v.Everywhere P ∧ ItemsEverywhere P vs))

def decideMembers : (ms : List (RawText × Value)) → Decidable (MembersEverywhere P ms)
  | [] => .isTrue trivial
  | (_, v) :: ms =>
    have := decideEverywhere v
    have := decideMembers ms
    inferInstanceAs (Decidable (v.Everywhere P ∧ MembersEverywhere P ms))

end

instance (v : Value) : Decidable (v.Everywhere P) := decideEverywhere v

end

/-! ## Depth -/

mutual

/-- How deep lists and objects are nested in a value. -/
def height : Value → Nat
  | arr vs => itemsHeight vs + 1
  | obj ms => membersHeight ms + 1
  | _ => 0

def itemsHeight : List Value → Nat
  | [] => 0
  | v :: vs => max v.height (itemsHeight vs)

def membersHeight : List (RawText × Value) → Nat
  | [] => 0
  | (_, v) :: ms => max v.height (membersHeight ms)

end

theorem height_arr_le {vs : List Value} {n : Nat} :
    (arr vs).height ≤ n + 1 ↔ ∀ v ∈ vs, v.height ≤ n := by
  have hitems : itemsHeight vs ≤ n ↔ ∀ v ∈ vs, v.height ≤ n := by
    induction vs with
    | nil => simp [itemsHeight]
    | cons v vs ih => rw [itemsHeight, max_le_iff, ih, List.forall_mem_cons]
  rw [height, Nat.add_le_add_iff_right, hitems]

theorem height_obj_le {ms : List (RawText × Value)} {n : Nat} :
    (obj ms).height ≤ n + 1 ↔ ∀ m ∈ ms, m.2.height ≤ n := by
  have hmembers : membersHeight ms ≤ n ↔ ∀ m ∈ ms, m.2.height ≤ n := by
    induction ms with
    | nil => simp [membersHeight]
    | cons m ms ih => rw [membersHeight, max_le_iff, ih, List.forall_mem_cons]
  rw [height, Nat.add_le_add_iff_right, hmembers]

end ProcCatalog.Value
