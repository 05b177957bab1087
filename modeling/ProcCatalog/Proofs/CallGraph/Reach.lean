import ProcCatalog.CallGraph.Basic
import Mathlib

/-!
# Reachability

A search that may visit as many nodes as there are finds all that can be reached: each node is put
on the list of those to visit once, and behind a node that was visited nothing is missing.
-/

namespace ProcCatalog.CallGraph

open Relation

variable {next : Text → List Text} {nodes todo seen : List Text} {key k : Text}

/-- How a search stands: what is to be visited has been seen, and behind all else that has been seen
nothing is missing. -/
structure Searching (next : Text → List Text) (nodes todo seen : List Text) : Prop where
  todo_seen : ∀ k ∈ todo, k ∈ seen
  nodup : seen.Nodup
  bounded : ∀ k ∈ seen, k ∈ nodes
  done : ∀ k ∈ seen, k ∉ todo → ∀ t ∈ next k, t ∈ seen

namespace Searching

theorem length_le (h : Searching next nodes todo seen) : seen.length ≤ nodes.length :=
  (h.nodup.subperm h.bounded).length_le

private theorem nodup_visit (hnodup : (next key).Nodup) (hseen : seen.Nodup) :
    ((next key).filter (fun t => !seen.contains t) ++ seen).Nodup := by
  refine List.nodup_append.mpr ⟨hnodup.filter _, hseen, ?_⟩
  rintro t ht _ hmem rfl
  simp [hmem] at ht

private theorem visit (hnodup : (next key).Nodup) (hnodes : ∀ t ∈ next key, t ∈ nodes)
    (h : Searching next nodes (key :: todo) seen) :
    Searching next nodes ((next key).filter (fun t => !seen.contains t) ++ todo)
      ((next key).filter (fun t => !seen.contains t) ++ seen) := by
  have hfresh : ∀ t, t ∈ (next key).filter (fun t => !seen.contains t) ↔
      t ∈ next key ∧ t ∉ seen := by
    simp
  constructor
  · intro t ht
    rcases List.mem_append.mp ht with ht | ht
    · exact List.mem_append_left _ ht
    · exact List.mem_append_right _ (h.todo_seen t (List.mem_cons_of_mem _ ht))
  · exact nodup_visit hnodup h.nodup
  · intro t ht
    rcases List.mem_append.mp ht with ht | ht
    · exact hnodes t ((hfresh t).mp ht).1
    · exact h.bounded t ht
  · intro s hs hdone t ht
    rw [List.mem_append, not_or] at hdone
    have hseen : s ∈ seen := (List.mem_append.mp hs).resolve_left hdone.1
    by_cases hmem : t ∈ seen
    · exact List.mem_append_right _ hmem
    · refine List.mem_append_left _ ((hfresh t).mpr ⟨?_, hmem⟩)
      by_cases hkey : s = key
      · rwa [hkey] at ht
      · exact absurd (h.done s hseen (by simp [hkey, hdone.2]) t ht) hmem

end Searching

private theorem reach_done {rounds : Nat} (hnodup : ∀ k, (next k).Nodup)
    (hnodes : ∀ k, ∀ t ∈ next k, t ∈ nodes) (h : Searching next nodes todo seen)
    (hrounds : todo.length + (nodes.length - seen.length) ≤ rounds) :
    (∀ k ∈ seen, k ∈ reach next rounds todo seen) ∧
      ∀ k ∈ reach next rounds todo seen, ∀ t ∈ next k, t ∈ reach next rounds todo seen := by
  induction rounds generalizing todo seen with
  | zero =>
      obtain rfl : todo = [] := List.length_eq_zero_iff.mp (by omega)
      exact ⟨fun k hk => hk, fun k hk => h.done k hk (by simp)⟩
  | succ rounds ih =>
      cases todo with
      | nil => exact ⟨fun k hk => hk, fun k hk => h.done k hk (by simp)⟩
      | cons key todo =>
          have hvisit := h.visit (hnodup key) (hnodes key)
          have hlength := hvisit.length_le
          obtain ⟨hseen, hdone⟩ := ih hvisit (by
            simp only [List.length_append, List.length_cons] at hrounds hlength ⊢
            omega)
          exact ⟨fun k hk => hseen k (List.mem_append_right _ hk), hdone⟩

private theorem reach_sound {rounds : Nat} {start : Text}
    (htodo : ∀ k ∈ todo, ReflTransGen (fun a b => b ∈ next a) start k)
    (hseen : ∀ k ∈ seen, ReflTransGen (fun a b => b ∈ next a) start k) :
    ∀ k ∈ reach next rounds todo seen, ReflTransGen (fun a b => b ∈ next a) start k := by
  induction rounds generalizing todo seen with
  | zero => exact hseen
  | succ rounds ih =>
      cases todo with
      | nil => exact hseen
      | cons key todo =>
          have hkey := htodo key (by simp)
          have hfresh : ∀ k ∈ (next key).filter (fun t => !seen.contains t),
              ReflTransGen (fun a b => b ∈ next a) start k :=
            fun k hk => hkey.tail (List.mem_filter.mp hk).1
          refine ih (fun k hk => ?_) (fun k hk => ?_)
          · exact (List.mem_append.mp hk).elim (hfresh k) fun h => htodo k (by simp [h])
          · exact (List.mem_append.mp hk).elim (hfresh k) (hseen k)

theorem nodup_reach {rounds : Nat} (hnodup : ∀ k, (next k).Nodup) (hseen : seen.Nodup) :
    (reach next rounds todo seen).Nodup := by
  induction rounds generalizing todo seen with
  | zero => exact hseen
  | succ rounds ih =>
      cases todo with
      | nil => exact hseen
      | cons key todo => exact ih (Searching.nodup_visit (hnodup key) hseen)

/-- A search from a node finds what a path from there leads to, and nothing else. -/
theorem mem_reach_iff (hnodup : ∀ k, (next k).Nodup) (hnodes : ∀ k, ∀ t ∈ next k, t ∈ nodes)
    (hkey : key ∈ nodes) :
    k ∈ reach next nodes.length [key] [key] ↔ ReflTransGen (fun a b => b ∈ next a) key k := by
  have hstart : Searching next nodes [key] [key] :=
    ⟨by simp, List.nodup_singleton _, by simpa using hkey, by simp⟩
  have hlength : [key].length + (nodes.length - [key].length) ≤ nodes.length := by
    have := List.length_pos_of_mem hkey
    simp only [List.length_singleton]
    omega
  obtain ⟨hseen, hdone⟩ := reach_done hnodup hnodes hstart hlength
  constructor
  · exact reach_sound (by simpa using .refl) (by simpa using .refl) k
  · intro h
    induction h with
    | refl => exact hseen key (by simp)
    | tail _ hstep ih => exact hdone _ ih _ hstep

end ProcCatalog.CallGraph
