import ProcCatalog.Fault
import Mathlib

/-!
# Outcomes

What a chain of operations did when none of them failed.
-/

namespace ProcCatalog

variable {α β : Type}

theorem Outcome.bind_eq_ok {x : Outcome α} {f : α → Outcome β} {b : β} :
    x >>= f = .ok b ↔ ∃ a, x = .ok a ∧ f a = .ok b := by
  cases x with
  | error fault => simp [bind, Except.bind]
  | ok a => simp [bind, Except.bind]

theorem Outcome.bind_eq_error {x : Outcome α} {f : α → Outcome β} {fault : Fault} :
    x >>= f = .error fault ↔ x = .error fault ∨ ∃ a, x = .ok a ∧ f a = .error fault := by
  cases x with
  | error fault => simp [bind, Except.bind]
  | ok a => simp [bind, Except.bind]

theorem Outcome.map_eq_ok {x : Outcome α} {f : α → β} {b : β} :
    x.map f = .ok b ↔ ∃ a, x = .ok a ∧ f a = b := by
  cases x with
  | error fault => simp [Except.map]
  | ok a => simp [Except.map]

/-- Operations whose results differ as what they take does. -/
theorem Outcome.map_bind_eq {α' β' : Type} {x : Outcome α} {f : α → α'} {g : α → Outcome β}
    {g' : α' → Outcome β'} {h : β → β'} (hg : ∀ a, g' (f a) = (g a).map h) :
    x.map f >>= g' = (x >>= g).map h := by
  cases x with
  | error fault => rfl
  | ok a => exact hg a

theorem Outcome.exists_of_mem_mapM {f : α → Outcome β} {xs : List α} {ys : List β}
    (h : xs.mapM f = .ok ys) {y : β} (hy : y ∈ ys) : ∃ x ∈ xs, f x = .ok y := by
  induction xs generalizing ys with
  | nil =>
      obtain rfl : [] = ys := Except.ok.inj h
      cases hy
  | cons x xs ih =>
      rw [List.mapM_cons] at h
      obtain ⟨z, hz, h⟩ := Outcome.bind_eq_ok.mp h
      obtain ⟨zs, hzs, h⟩ := Outcome.bind_eq_ok.mp h
      obtain rfl : z :: zs = ys := Except.ok.inj h
      rcases List.mem_cons.mp hy with rfl | hy
      · exact ⟨x, List.mem_cons_self, hz⟩
      · obtain ⟨w, hw, hfw⟩ := ih hzs hy
        exact ⟨w, List.mem_cons_of_mem _ hw, hfw⟩

theorem Outcome.exists_mapM_iff {f : α → Outcome β} {xs : List α} :
    (∃ ys, xs.mapM f = .ok ys) ↔ ∀ x ∈ xs, ∃ y, f x = .ok y := by
  induction xs with
  | nil => exact ⟨fun _ _ hx => (nomatch hx), fun _ => ⟨[], rfl⟩⟩
  | cons x xs ih =>
      rw [List.forall_mem_cons, ← ih, List.mapM_cons]
      constructor
      · rintro ⟨ys, h⟩
        obtain ⟨y, hy, h⟩ := Outcome.bind_eq_ok.mp h
        obtain ⟨zs, hzs, -⟩ := Outcome.bind_eq_ok.mp h
        exact ⟨⟨y, hy⟩, zs, hzs⟩
      · rintro ⟨⟨y, hy⟩, zs, hzs⟩
        exact ⟨y :: zs, Outcome.bind_eq_ok.mpr ⟨y, hy, Outcome.bind_eq_ok.mpr ⟨zs, hzs, rfl⟩⟩⟩

/-- What is told of the results of a row of operations by what they came from. -/
theorem Outcome.map_eq_map_of_mapM {γ : Type} {f : α → Outcome β} {g : β → γ} {h : α → γ}
    (hg : ∀ x y, f x = .ok y → g y = h x) {xs : List α} {ys : List β}
    (hxs : xs.mapM f = .ok ys) : ys.map g = xs.map h := by
  induction xs generalizing ys with
  | nil =>
      obtain rfl : [] = ys := Except.ok.inj hxs
      rfl
  | cons x xs ih =>
      rw [List.mapM_cons] at hxs
      obtain ⟨y, hy, hxs⟩ := Outcome.bind_eq_ok.mp hxs
      obtain ⟨ys', hys, hxs⟩ := Outcome.bind_eq_ok.mp hxs
      obtain rfl : y :: ys' = ys := Except.ok.inj hxs
      rw [List.map_cons, List.map_cons, hg x y hy, ih hys]

/-- A row of operations whose results tell what they came from. -/
theorem Outcome.map_eq_of_mapM {f : α → Outcome β} {g : β → α}
    (hg : ∀ x y, f x = .ok y → g y = x) {xs : List α} {ys : List β} (h : xs.mapM f = .ok ys) :
    ys.map g = xs := by
  rw [map_eq_map_of_mapM (h := id) hg h, List.map_id]

theorem Outcome.mapM_map {α' β' : Type} {f : α → Outcome β} {f' : α' → Outcome β'} {g : α → α'}
    {h : β → β'} (hf : ∀ x, f' (g x) = (f x).map h) (xs : List α) :
    (xs.map g).mapM f' = (xs.mapM f).map (List.map h) := by
  induction xs with
  | nil => rfl
  | cons x xs ih =>
      rw [List.map_cons, List.mapM_cons, List.mapM_cons, hf, ih]
      refine map_bind_eq fun y => ?_
      exact map_bind_eq fun ys => rfl

end ProcCatalog
