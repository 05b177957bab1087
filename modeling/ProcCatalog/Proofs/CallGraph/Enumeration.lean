import ProcCatalog.CallGraph.Cycle
import ProcCatalog.Proofs.CallGraph.Reach
import ProcCatalog.Proofs.Text.Order

/-!
# Listing elementary cycles

Cycles are listed from their least node on, along paths that hold no node twice. Looking ahead
leaves out only paths from which no cycle is to be had, so a budget cuts off the end of the list
and nothing else. Without a budget every elementary cycle of two or more nodes is listed once.
-/

namespace ProcCatalog.CallGraph

open Relation

variable {g : CallGraph} {start key : Text} {path tail : List Text} {c : List Text}

/-- Every node has one key, and no edge is doubled or leads out of the graph. -/
structure Tidy (g : CallGraph) : Prop where
  keys : g.keys.Nodup
  callees : ∀ u, (g.callees u).Nodup
  closed : ∀ u, ∀ v ∈ g.callees u, v ∈ g.keys

def Edge (g : CallGraph) (u v : Text) : Prop := v ∈ g.callees u

theorem comesAfter_iff : comesAfter start key = true ↔ Text.le start key = true ∧ start ≠ key := by
  simp [comesAfter]

/-! ## Listing without a budget -/

/-- All cycles that go on from a path by fewer than `steps` nodes. -/
def extensions (g : CallGraph) (start : Text) : Nat → List Text → List (List Text)
  | 0, _ => []
  | steps + 1, path =>
    (g.callees (path.headD start)).flatMap fun key =>
      if key == start then (if path.length < 2 then [] else [path.reverse])
      else if comesAfter start key && !path.contains key then
        extensions g start steps (key :: path)
      else []

/-- Those of them that go on to one node first. -/
def extensionsBy (g : CallGraph) (start : Text) (steps : Nat) (path : List Text) (key : Text) :
    List (List Text) :=
  if key == start then (if path.length < 2 then [] else [path.reverse])
  else if comesAfter start key && !path.contains key then
    extensions g start steps (key :: path)
  else []

theorem extensions_succ (g : CallGraph) (start : Text) (steps : Nat) (path : List Text) :
    g.extensions start (steps + 1) path =
      (g.callees (path.headD start)).flatMap (g.extensionsBy start steps path) := rfl

theorem mem_extensionsBy_iff {steps : Nat} :
    c ∈ g.extensionsBy start steps path key ↔
      (key = start ∧ 2 ≤ path.length ∧ c = path.reverse) ∨
        (comesAfter start key = true ∧ key ∉ path ∧ c ∈ g.extensions start steps (key :: path)) := by
  rw [extensionsBy]
  by_cases hstart : key = start
  · subst hstart
    have hnot : comesAfter key key = false := by simp [comesAfter]
    by_cases hshort : path.length < 2
    · simp [hnot, hshort, Nat.not_le_of_lt hshort]
    · simp [hnot, hshort, Nat.le_of_not_lt hshort]
  · by_cases hnext : comesAfter start key = true ∧ key ∉ path
    · simp [hstart, hnext]
    · simp [hstart, ← and_assoc, hnext]

/-- Going on from the path, whose last node comes first, the tail makes a cycle. -/
structure Closes (g : CallGraph) (start : Text) (path tail : List Text) : Prop where
  chain : List.IsChain g.Edge (path.headD start :: (tail ++ [start]))
  nodup : tail.Nodup
  later : ∀ k ∈ tail, comesAfter start k = true
  fresh : ∀ k ∈ tail, k ∉ path

namespace Closes

theorem nil_iff : Closes g start path [] ↔ g.Edge (path.headD start) start := by
  constructor
  · intro h
    simpa using h.chain
  · intro h
    exact ⟨by simpa using h, .nil, by simp, by simp⟩

theorem cons_iff :
    Closes g start path (key :: tail) ↔
      g.Edge (path.headD start) key ∧ comesAfter start key = true ∧ key ∉ path ∧
        Closes g start (key :: path) tail := by
  constructor
  · intro h
    obtain ⟨hedge, hchain⟩ := List.isChain_cons_cons.mp h.chain
    obtain ⟨hkey, hnodup⟩ := List.nodup_cons.mp h.nodup
    refine ⟨hedge, h.later key (by simp), h.fresh key (by simp), hchain, hnodup,
      fun k hk => h.later k (by simp [hk]), fun k hk => ?_⟩
    rw [List.mem_cons, not_or]
    exact ⟨fun heq => hkey (heq ▸ hk), h.fresh k (by simp [hk])⟩
  · rintro ⟨hedge, hlater, hfresh, h⟩
    refine ⟨List.isChain_cons_cons.mpr ⟨hedge, h.chain⟩, List.nodup_cons.mpr ⟨?_, h.nodup⟩, ?_, ?_⟩
    · exact fun hmem => h.fresh key hmem (by simp)
    · exact List.forall_mem_cons.mpr ⟨hlater, h.later⟩
    · refine List.forall_mem_cons.mpr ⟨hfresh, fun k hk hmem => ?_⟩
      exact h.fresh k hk (List.mem_cons_of_mem _ hmem)

end Closes

theorem mem_extensions_iff {steps : Nat} :
    c ∈ extensions g start steps path ↔
      ∃ tail, tail.length < steps ∧ 2 ≤ path.length + tail.length ∧
        Closes g start path tail ∧ c = path.reverse ++ tail := by
  induction steps generalizing path with
  | zero => simp [extensions]
  | succ steps ih =>
      rw [extensions_succ, List.mem_flatMap]
      constructor
      · rintro ⟨key, hkey, hc⟩
        obtain ⟨rfl, hlong, rfl⟩ | ⟨hlater, hfresh, hc⟩ := mem_extensionsBy_iff.mp hc
        · exact ⟨[], by simp, hlong, Closes.nil_iff.mpr hkey, by simp⟩
        · obtain ⟨tail, hlength, hlong, hcloses, rfl⟩ := ih.mp hc
          refine ⟨key :: tail, by simpa using hlength, ?_,
            Closes.cons_iff.mpr ⟨hkey, hlater, hfresh, hcloses⟩, by simp⟩
          rw [List.length_cons] at hlong ⊢
          omega
      · rintro ⟨tail, hlength, hlong, hcloses, rfl⟩
        cases tail with
        | nil =>
            refine ⟨start, Closes.nil_iff.mp hcloses, ?_⟩
            exact mem_extensionsBy_iff.mpr (.inl ⟨rfl, hlong, List.append_nil _⟩)
        | cons key tail =>
            obtain ⟨hedge, hlater, hfresh, hcloses⟩ := Closes.cons_iff.mp hcloses
            refine ⟨key, hedge, mem_extensionsBy_iff.mpr (.inr ⟨hlater, hfresh, ?_⟩)⟩
            refine ih.mpr ⟨tail, by simpa using hlength, ?_, hcloses, by simp⟩
            rw [List.length_cons] at hlong ⊢
            omega

/-! ## Looking ahead -/

private theorem Closes.reflTransGen {seen : List Text} (hseen : ∀ k ∈ seen, k ∈ path)
    (h : Closes g start path tail) :
    ReflTransGen (fun a b => b ∈ (g.callees a).filter fun t =>
        t == start || (comesAfter start t && !seen.contains t))
      (path.headD start) start := by
  induction tail generalizing path with
  | nil => exact .single (List.mem_filter.mpr ⟨nil_iff.mp h, by simp⟩)
  | cons key tail ih =>
      obtain ⟨hedge, hlater, hfresh, hcloses⟩ := cons_iff.mp h
      have hnew : key ∉ seen := fun hmem => hfresh (hseen key hmem)
      refine .head (List.mem_filter.mpr ⟨hedge, by simp [hlater, hnew]⟩) ?_
      exact ih (fun k hk => List.mem_cons_of_mem key (hseen k hk)) hcloses

theorem canClose_of_closes (hg : Tidy g) (hkey : key ∈ g.keys)
    (h : Closes g start (key :: path) tail) : g.canClose start path key = true := by
  have hlength : g.nodes.length = g.keys.length := (List.length_map ..).symm
  rw [canClose, hlength, List.contains_iff_mem,
    mem_reach_iff (fun k => (hg.callees k).filter _)
      (fun k t ht => hg.closed k t (List.mem_filter.mp ht).1) hkey]
  exact h.reflTransGen fun k hk => List.mem_cons_of_mem _ hk

/-! ## The budget -/

private theorem take_take_append {α : Type} (n : Nat) (xs ys : List α) :
    (xs.take n ++ ys).take n = (xs ++ ys).take n := by
  rw [List.take_append, List.take_append, List.take_take, Nat.min_self, List.length_take]
  congr 2
  omega

/-- What is added one by one, up to a budget, is the beginning of what there is. -/
private theorem foldl_eq_take {budget : Nat} {f : Text → List (List Text)}
    {add : List (List Text) → Text → List (List Text)} {ks : List Text}
    (hadd : ∀ found, ∀ k ∈ ks, found.length ≤ budget → add found k = (found ++ f k).take budget)
    {found : List (List Text)} (hfound : found.length ≤ budget) :
    ks.foldl add found = (found ++ ks.flatMap f).take budget := by
  induction ks generalizing found with
  | nil => simp [List.take_of_length_le hfound]
  | cons k ks ih =>
      rw [List.foldl_cons, hadd found k (by simp) hfound,
        ih (fun found k hk => hadd found k (by simp [hk])) (by simp), take_take_append]
      simp

theorem cyclesAlong_eq_take (hg : Tidy g) (steps budget : Nat) (path : List Text) :
    g.cyclesAlong start steps budget path = (g.extensions start steps path).take budget := by
  induction steps generalizing budget path with
  | zero => simp [cyclesAlong, extensions]
  | succ steps ih =>
      rw [cyclesAlong, extensions]
      refine foldl_eq_take (fun found key hkey hfound => ?_) (Nat.zero_le _)
      by_cases hfull : budget ≤ found.length
      · rw [if_pos hfull, List.take_append_of_le_length hfull, List.take_of_length_le hfound]
      · rw [if_neg hfull]
        by_cases hstart : (key == start) = true
        · rw [if_pos hstart, if_pos hstart]
          by_cases hshort : path.length < 2
          · rw [if_pos hshort, if_pos hshort, List.append_nil, List.take_of_length_le hfound]
          · rw [if_neg hshort, if_neg hshort, List.take_of_length_le]
            simp only [List.length_append, List.length_singleton]
            omega
        · rw [if_neg hstart, if_neg hstart]
          by_cases hnext : (comesAfter start key && !path.contains key) = true
          · rw [if_pos hnext]
            by_cases hclose : g.canClose start path key = true
            · rw [if_pos (by rw [hnext, hclose]; rfl), ih, List.take_append,
                List.take_of_length_le hfound]
            · rw [if_neg (by simp [hclose])]
              have hnone : g.extensions start steps (key :: path) = [] := by
                refine List.eq_nil_iff_forall_not_mem.mpr fun c hc => hclose ?_
                obtain ⟨tail, -, -, hcloses, -⟩ := mem_extensions_iff.mp hc
                exact canClose_of_closes hg (hg.closed _ _ hkey) hcloses
              rw [hnone, List.append_nil, List.take_of_length_le hfound]
          · rw [if_neg hnext, if_neg fun h => hnext (Bool.and_eq_true_iff.mp h).1, List.append_nil,
              List.take_of_length_le hfound]

def allCycles (g : CallGraph) : List (List Text) :=
  (Text.sorted g.keys).flatMap fun start => g.extensions start g.nodes.length [start]

theorem longCycles_eq_take (hg : Tidy g) (budget : Nat) :
    g.longCycles budget = g.allCycles.take budget := by
  refine foldl_eq_take (fun found start _ hfound => ?_) (Nat.zero_le _)
  rw [cyclesAlong_eq_take hg, List.take_append, List.take_of_length_le hfound]

/-! ## What is listed -/

/-- A cycle of two or more nodes, none of them twice, told from its least node on. -/
structure Canonical (r : Text → Text → Prop) (c : List Text) : Prop where
  long : 2 ≤ c.length
  nodup : c.Nodup
  chain : Cycle.Chain r (c : Cycle Text)
  least : ∀ x ∈ c.head?, ∀ y ∈ c, Text.le x y = true

private theorem exists_of_mem_chain {r : Text → Text → Prop} {a x : Text} {l : List Text}
    (h : List.IsChain r (a :: l)) (hx : x ∈ l) : ∃ y, r y x := by
  induction l generalizing a with
  | nil => simp at hx
  | cons b l ih =>
      obtain ⟨hab, hchain⟩ := List.isChain_cons_cons.mp h
      rcases List.mem_cons.mp hx with rfl | hx
      · exact ⟨a, hab⟩
      · exact ih hchain hx

theorem Canonical.exists_edge {r : Text → Text → Prop} (h : Canonical r c) (hkey : key ∈ c) :
    ∃ u, r u key := by
  cases c with
  | nil => simp at hkey
  | cons start tail =>
      have hmem : key ∈ tail ++ [start] := by simpa [or_comm] using hkey
      exact exists_of_mem_chain ((Cycle.chain_coe_cons ..).mp h.chain) hmem

theorem mem_allCycles_iff (hg : Tidy g) : c ∈ g.allCycles ↔ Canonical g.Edge c := by
  rw [allCycles, List.mem_flatMap]
  constructor
  · rintro ⟨start, -, hc⟩
    obtain ⟨tail, -, hlong, hcloses, rfl⟩ := mem_extensions_iff.mp hc
    have hstart : start ∉ tail := fun hmem =>
      (comesAfter_iff.mp (hcloses.later start hmem)).2 rfl
    have hlength : 2 ≤ (start :: tail).length := by
      rw [List.length_cons, Nat.add_comm]
      exact hlong
    refine ⟨hlength, List.nodup_cons.mpr ⟨hstart, hcloses.nodup⟩, hcloses.chain, ?_⟩
    rintro x ⟨⟩ y hy
    rcases List.mem_cons.mp hy with rfl | hy
    · exact Text.ranks_le.refl y
    · exact (comesAfter_iff.mp (hcloses.later y hy)).1
  · intro h
    have htarget : ∀ k ∈ c, ∃ u, g.Edge u k := fun k hk => h.exists_edge hk
    obtain ⟨hlong, hnodup, hchain, hleast⟩ := h
    cases c with
    | nil => simp at hlong
    | cons start tail =>
        rw [Cycle.chain_coe_cons] at hchain
        obtain ⟨hstart, htail⟩ := List.nodup_cons.mp hnodup
        have hkeys : ∀ k ∈ start :: tail, k ∈ g.keys := by
          intro k hk
          obtain ⟨u, hu⟩ := htarget k hk
          exact hg.closed u k hu
        have hlength : tail.length < g.nodes.length := by
          have hle := (hnodup.subperm hkeys).length_le
          rwa [keys, List.length_map, List.length_cons] at hle
        have hlater : ∀ k ∈ tail, comesAfter start k = true := fun k hk =>
          comesAfter_iff.mpr ⟨hleast start rfl k (by simp [hk]), fun heq => hstart (heq ▸ hk)⟩
        have hfresh : ∀ k ∈ tail, k ∉ [start] := by
          intro k hk hmem
          exact hstart (List.mem_singleton.mp hmem ▸ hk)
        rw [List.length_cons, Nat.add_comm] at hlong
        exact ⟨start, mem_sortBy.mpr (hkeys start (by simp)), mem_extensions_iff.mpr
          ⟨tail, hlength, hlong, ⟨hchain, htail, hlater, hfresh⟩, rfl⟩⟩

/-! ## Nothing is listed twice -/

/-- What stands behind the path tells to which node it goes on. -/
private theorem getElem?_of_mem_extensionsBy {steps : Nat} {cycle : List Text}
    (h : cycle ∈ g.extensionsBy start steps path key) :
    cycle[path.length]? = if key = start then none else some key := by
  obtain ⟨rfl, -, rfl⟩ | ⟨hlater, -, hc⟩ := mem_extensionsBy_iff.mp h
  · simp
  · obtain ⟨tail, -, -, -, rfl⟩ := mem_extensions_iff.mp hc
    have hne : key ≠ start := (comesAfter_iff.mp hlater).2.symm
    simp [hne]

private theorem nodup_extensions (hg : Tidy g) (start : Text) (steps : Nat) (path : List Text) :
    (g.extensions start steps path).Nodup := by
  induction steps generalizing path with
  | zero => exact .nil
  | succ steps ih =>
      rw [extensions_succ, List.nodup_flatMap]
      constructor
      · intro key _
        rw [extensionsBy]
        split_ifs
        · exact .nil
        · exact List.nodup_singleton _
        · exact ih (key :: path)
        · exact .nil
      · refine (hg.callees _).imp fun {a b} hab c ha hb => hab ?_
        have hcut := (getElem?_of_mem_extensionsBy ha).symm.trans (getElem?_of_mem_extensionsBy hb)
        by_cases hstart : a = start <;> by_cases hstart' : b = start <;> simp_all

theorem nodup_allCycles (hg : Tidy g) : g.allCycles.Nodup := by
  have hsorted : (Text.sorted g.keys).Nodup := (sortBy_perm _ _).nodup_iff.mpr hg.keys
  refine List.nodup_flatMap.mpr ⟨fun start _ => nodup_extensions hg start _ _, ?_⟩
  refine hsorted.imp fun {a b} hab c ha hb => hab ?_
  obtain ⟨tail, -, -, -, rfl⟩ := mem_extensions_iff.mp ha
  obtain ⟨tail', -, -, -, htext⟩ := mem_extensions_iff.mp hb
  exact (List.cons.inj htext).1

end ProcCatalog.CallGraph
