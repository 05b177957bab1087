import ProcCatalog.CallGraph.Summary
import ProcCatalog.Proofs.CallGraph.Enumeration
import ProcCatalog.Proofs.CallGraph.Routines

/-!
# Reported call cycles

An elementary cycle has no first node. Told from its least node on it becomes a list, and no two
lists tell one cycle, so cycles can be counted by the lists that tell them. Up to the cap the
report holds every elementary cycle of two or more nodes.
-/

namespace ProcCatalog.CallGraph

variable {r : Text → Text → Prop} {a b : List Text}

/-! ## Elementary cycles -/

/-- Nodes that are pairwise distinct, each with an edge to the next and the last to the first. -/
structure Elementary (r : Text → Text → Prop) (c : Cycle Text) : Prop where
  nonempty : c ≠ Cycle.nil
  nodup : c.Nodup
  chain : c.Chain r

def elementaryCycles (r : Text → Text → Prop) : Set (Cycle Text) := {c | Elementary r c}

def selfLoops (r : Text → Text → Prop) : Set (Cycle Text) := {c | Elementary r c ∧ c.length = 1}

def longElementary (r : Text → Text → Prop) : Set (Cycle Text) :=
  {c | Elementary r c ∧ 2 ≤ c.length}

def cycleOf (a : List Text) : Cycle Text := a

theorem Canonical.elementary (h : Canonical r a) : cycleOf a ∈ longElementary r := by
  refine ⟨⟨fun hnil => ?_, Cycle.nodup_coe_iff.mpr h.nodup, h.chain⟩, h.long⟩
  have hlong := h.long
  rw [(Cycle.coe_eq_nil a).mp hnil] at hlong
  simp at hlong

private theorem eq_of_isRotated (ha : a.Nodup) (h : a ~r b) (hhead : a.head? = b.head?) :
    a = b := by
  obtain ⟨n, hn, rfl⟩ := List.isRotated_iff_mod.mp h
  rcases Nat.lt_or_eq_of_le hn with hlt | rfl
  · rw [List.head?_rotate hlt, List.head?_eq_getElem?] at hhead
    have hzero : 0 = n := by
      have hpos : 0 < a.length := Nat.lt_of_le_of_lt (Nat.zero_le n) hlt
      rw [List.getElem?_eq_getElem hpos, List.getElem?_eq_getElem hlt, Option.some.injEq] at hhead
      exact (ha.getElem_inj_iff).mp hhead
    rw [← hzero, List.rotate_zero]
  · exact (List.rotate_length a).symm

theorem Canonical.eq_of_coe_eq (ha : Canonical r a) (hb : Canonical r b)
    (h : cycleOf a = cycleOf b) : a = b := by
  have hrotated : a ~r b := Cycle.coe_eq_coe.mp h
  refine eq_of_isRotated ha.nodup hrotated ?_
  cases a with
  | nil => rw [List.isRotated_nil_iff'.mp hrotated]
  | cons x a =>
      cases b with
      | nil => simp at hrotated
      | cons y b =>
          have hxy := ha.least x rfl y (hrotated.mem_iff.mpr (by simp))
          have hyx := hb.least y rfl x (hrotated.mem_iff.mp (by simp))
          rw [Text.le_antisymm hxy hyx]
          rfl

private theorem exists_least {l : List Text} (h : l ≠ []) :
    ∃ x ∈ l, ∀ y ∈ l, Text.le x y = true := by
  cases hsorted : Text.sorted l with
  | nil =>
      obtain ⟨x, hx⟩ := List.exists_mem_of_ne_nil l h
      have hx : x ∈ Text.sorted l := mem_sortBy.mpr hx
      simp [hsorted] at hx
  | cons x s =>
      have hmem (y : Text) : y ∈ l ↔ y ∈ x :: s := by
        rw [← hsorted]
        exact mem_sortBy.symm
      have hpairwise := pairwise_sortBy Text.ranks_le l
      rw [← Text.sorted, hsorted, List.pairwise_cons] at hpairwise
      refine ⟨x, (hmem x).mpr (by simp), fun y hy => ?_⟩
      rcases List.mem_cons.mp ((hmem y).mp hy) with rfl | hy
      · exact Text.ranks_le.refl y
      · exact hpairwise.1 y hy

theorem exists_canonical {c : Cycle Text} (h : c ∈ longElementary r) :
    ∃ a, Canonical r a ∧ cycleOf a = c := by
  obtain ⟨⟨hne, hnodup, hchain⟩, hlong⟩ := h
  induction c using Quotient.inductionOn' with
  | h l =>
      have hl : l ≠ [] := fun hnil => hne ((Cycle.coe_eq_nil l).mpr hnil)
      obtain ⟨x, hx, hleast⟩ := exists_least hl
      obtain ⟨s, t, rfl⟩ := List.append_of_mem hx
      have hrotated : (x :: t) ++ s ~r s ++ x :: t := List.isRotated_append
      have hcoe : cycleOf ((x :: t) ++ s) = cycleOf (s ++ x :: t) := Cycle.coe_eq_coe.mpr hrotated
      refine ⟨(x :: t) ++ s, ⟨?_, ?_, ?_, ?_⟩, hcoe⟩
      · rw [hrotated.perm.length_eq]
        exact hlong
      · exact hrotated.nodup_iff.mpr hnodup
      · change (cycleOf ((x :: t) ++ s)).Chain r
        rw [hcoe]
        exact hchain
      · rintro y ⟨⟩ z hz
        exact hleast z (hrotated.mem_iff.mp hz)

/-! ## Counting -/

variable {routines : List Routine}

theorem tidy_ofRoutines (routines : List Routine) : Tidy (ofRoutines routines) where
  keys := nodup_keys routines
  callees := nodup_callees routines
  closed _ _ h := mem_keys.mpr (mem_callees.mp h).named_right

theorem edge_ofRoutines (routines : List Routine) :
    (ofRoutines routines).Edge = Calls routines :=
  funext fun _ => funext fun _ => propext mem_callees

theorem mem_allCycles_ofRoutines : a ∈ (ofRoutines routines).allCycles ↔
    Canonical (Calls routines) a := by
  rw [mem_allCycles_iff (tidy_ofRoutines routines), edge_ofRoutines]

theorem nodup_map_allCycles (routines : List Routine) :
    ((ofRoutines routines).allCycles.map cycleOf).Nodup := by
  refine List.Nodup.map_on (fun a ha b hb heq => ?_) (nodup_allCycles (tidy_ofRoutines routines))
  exact (mem_allCycles_ofRoutines.mp ha).eq_of_coe_eq (mem_allCycles_ofRoutines.mp hb) heq

theorem mem_map_allCycles {c : Cycle Text} :
    c ∈ ((ofRoutines routines).allCycles.map cycleOf) ↔
      c ∈ longElementary (Calls routines) := by
  rw [List.mem_map]
  constructor
  · rintro ⟨a, ha, rfl⟩
    exact (mem_allCycles_ofRoutines.mp ha).elementary
  · intro hc
    obtain ⟨a, ha, rfl⟩ := exists_canonical hc
    exact ⟨a, mem_allCycles_ofRoutines.mpr ha, rfl⟩

def loopCycles (routines : List Routine) : List (Cycle Text) :=
  ((ofRoutines routines).edges.filter fun e => e.1 == e.2).map fun e => cycleOf [e.1]

theorem length_loopCycles (routines : List Routine) :
    (loopCycles routines).length = (ofRoutines routines).selfCalls := by
  rw [loopCycles, List.length_map, selfCalls, List.countP_eq_length_filter]

theorem nodup_loopCycles (routines : List Routine) : (loopCycles routines).Nodup := by
  refine List.Nodup.map_on ?_ ((nodup_edges routines).filter _)
  rintro ⟨u, u'⟩ hu ⟨v, v'⟩ hv heq
  have hu : u = u' := by simpa using (List.mem_filter.mp hu).2
  have hv : v = v' := by simpa using (List.mem_filter.mp hv).2
  have huv : [u] = [v] := List.isRotated_singleton_iff'.mp (Cycle.coe_eq_coe.mp heq)
  rw [← hu, ← hv, (List.cons.inj huv).1]

theorem mem_loopCycles {c : Cycle Text} :
    c ∈ loopCycles routines ↔ c ∈ selfLoops (Calls routines) := by
  rw [loopCycles, List.mem_map]
  constructor
  · rintro ⟨⟨u, v⟩, he, rfl⟩
    obtain ⟨he, huv⟩ := List.mem_filter.mp he
    obtain rfl : u = v := by simpa using huv
    refine ⟨⟨by simp [cycleOf], by simp [cycleOf], ?_⟩, rfl⟩
    exact (Cycle.chain_singleton _ _).mpr (mem_edges.mp he)
  · rintro ⟨⟨-, -, hchain⟩, hlength⟩
    induction c using Quotient.inductionOn' with
    | h l =>
        obtain ⟨u, rfl⟩ := List.length_eq_one_iff.mp hlength
        have hedge := mem_edges.mpr ((Cycle.chain_singleton _ _).mp hchain)
        exact ⟨(u, u), List.mem_filter.mpr ⟨hedge, by simp⟩, rfl⟩

private theorem ncard_of_nodup {α : Type} {xs : List α} {s : Set α} (hnodup : xs.Nodup)
    (hmem : ∀ x, x ∈ xs ↔ x ∈ s) : s.Finite ∧ s.ncard = xs.length := by
  have hcard := encard_eq_length hnodup hmem
  exact ⟨Set.finite_of_encard_eq_coe hcard, by rw [Set.ncard, hcard, ENat.toNat_natCast]⟩

theorem ncard_selfLoops (routines : List Routine) :
    (selfLoops (Calls routines)).Finite ∧
      (selfLoops (Calls routines)).ncard = (ofRoutines routines).selfCalls := by
  rw [← length_loopCycles]
  exact ncard_of_nodup (nodup_loopCycles routines) fun _ => mem_loopCycles

theorem ncard_elementaryCycles (routines : List Routine) :
    (elementaryCycles (Calls routines)).Finite ∧
      (elementaryCycles (Calls routines)).ncard =
        (ofRoutines routines).selfCalls + (ofRoutines routines).allCycles.length := by
  obtain ⟨hloops, hloopCount⟩ := ncard_selfLoops routines
  obtain ⟨hlong, hlongCount⟩ :=
    ncard_of_nodup (nodup_map_allCycles routines) fun _ => mem_map_allCycles
  have hunion : elementaryCycles (Calls routines) =
      selfLoops (Calls routines) ∪ longElementary (Calls routines) := by
    ext c
    constructor
    · intro hc
      have hpos : c.length ≠ 0 := by
        intro hzero
        induction c using Quotient.inductionOn' with
        | h l => exact hc.nonempty ((Cycle.coe_eq_nil l).mpr (List.length_eq_zero_iff.mp hzero))
      by_cases hone : c.length = 1
      · exact .inl ⟨hc, hone⟩
      · exact .inr ⟨hc, by omega⟩
    · rintro (hc | hc)
      · exact hc.1
      · exact hc.1
  have hdisjoint : Disjoint (selfLoops (Calls routines)) (longElementary (Calls routines)) := by
    refine Set.disjoint_left.mpr fun c hone htwo => ?_
    have := hone.2
    have := htwo.2
    omega
  rw [hunion]
  refine ⟨hloops.union hlong, ?_⟩
  rw [Set.ncard_union_eq hdisjoint hloops hlong, hloopCount, hlongCount, List.length_map]

/-! ## The report -/

def chosenCycles (routines : List Routine) : List (List Text) :=
  (ofRoutines routines).allCycles.take (maxCycles - (ofRoutines routines).selfCalls)

theorem canonical_of_mem_chosen (h : a ∈ chosenCycles routines) :
    Canonical (Calls routines) a :=
  mem_allCycles_ofRoutines.mp (List.mem_of_mem_take h)

private theorem map_lower_map_spelling (h : a ∈ chosenCycles routines) :
    (a.map (lastSpelling routines)).map Text.lower = a := by
  have hlower : ∀ key ∈ a, (Text.lower ∘ lastSpelling routines) key = id key := by
    intro key hkey
    obtain ⟨u, hu⟩ := (canonical_of_mem_chosen h).exists_edge hkey
    exact lower_lastSpelling hu.named_right
  rw [List.map_map, List.map_congr_left hlower, List.map_id]

theorem cycles_perm (routines : List Routine) :
    (ofRoutines routines).cycles.Perm
      ((chosenCycles routines).map fun a => a.map (lastSpelling routines)) := by
  have hspelling : (ofRoutines routines).spelling = lastSpelling routines :=
    funext (spelling_eq routines)
  rw [cycles, longCycles_eq_take (tidy_ofRoutines routines), hspelling]
  exact sortBy_perm _ _

theorem exists_of_mem_cycles {entry : List Text} (h : entry ∈ (ofRoutines routines).cycles) :
    entry.map Text.lower ∈ chosenCycles routines ∧
      entry = (entry.map Text.lower).map (lastSpelling routines) := by
  obtain ⟨a, ha, rfl⟩ := List.mem_map.mp ((cycles_perm routines).mem_iff.mp h)
  rw [map_lower_map_spelling ha]
  exact ⟨ha, rfl⟩

theorem length_cycles (routines : List Routine) :
    (ofRoutines routines).cycles.length =
      min maxCycles (elementaryCycles (Calls routines)).ncard -
        min maxCycles (selfLoops (Calls routines)).ncard := by
  rw [(cycles_perm routines).length_eq, List.length_map, chosenCycles, List.length_take,
    (ncard_elementaryCycles routines).2, (ncard_selfLoops routines).2]
  omega

theorem chosenCycles_eq (h : (elementaryCycles (Calls routines)).ncard ≤ maxCycles) :
    chosenCycles routines = (ofRoutines routines).allCycles := by
  rw [(ncard_elementaryCycles routines).2] at h
  rw [chosenCycles, List.take_of_length_le]
  omega

end ProcCatalog.CallGraph
