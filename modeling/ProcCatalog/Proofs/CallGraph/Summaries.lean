import ProcCatalog.CallGraph.Summary
import ProcCatalog.Proofs.CallGraph.Reach
import ProcCatalog.Proofs.CallGraph.Routines

/-!
# Summaries of the calls

The number of edges, the callers of a procedure, the hotspots and the unresolved calls are computed
from one graph in different ways. Each tells what the calls of the procedures are, without regard to
case: a listed call is an edge or unresolved, every edge makes one caller, and the callers of all
procedures together are the edges.
-/

namespace ProcCatalog.CallGraph

open Relation

variable {routines : List Routine} {u v key : Text}

/-! ## Callers -/

/-- What a list of callers tells about the calls to a name. -/
structure ListsCallers (routines : List Routine) (v : Text) (names : List Text) : Prop where
  mem : ∀ u, u ∈ names.map Text.lower ↔ Calls routines u v
  /-- Each caller is shown as the last procedure of its name spells it. -/
  spelled : ∀ name ∈ names, name = lastSpelling routines (Text.lower name)
  ascending : names.Pairwise fun a b => lowerLe a b = true ∧ Text.lower a ≠ Text.lower b

theorem ListsCallers.mem_iff {names : List Text} {name : Text}
    (h : ListsCallers routines v names) :
    name ∈ names ↔ Calls routines (Text.lower name) v ∧
      name = lastSpelling routines (Text.lower name) := by
  rw [← h.mem]
  constructor
  · exact fun hname => ⟨List.mem_map_of_mem hname, h.spelled name hname⟩
  · rintro ⟨hlower, hspelled⟩
    obtain ⟨shown, hshown, heq⟩ := List.mem_map.mp hlower
    rwa [hspelled, ← heq, ← h.spelled shown hshown]

theorem ranks_lowerLe : Ranks lowerLe := Text.ranks_le.comap Text.lower

private theorem map_lower_map_lastSpelling {names : List Text}
    (h : ∀ key ∈ names, Named routines key) :
    (names.map (lastSpelling routines)).map Text.lower = names := by
  rw [List.map_map]
  exact (List.map_congr_left fun key hkey => lower_lastSpelling (h key hkey)).trans (List.map_id _)

private theorem map_lower_spellings (routines : List Routine) (v : Text) :
    (((ofRoutines routines).callers v).map (ofRoutines routines).spelling).map Text.lower =
      (ofRoutines routines).callers v := by
  rw [funext (spelling_eq routines)]
  exact map_lower_map_lastSpelling fun u hu => (mem_callers.mp hu).named_left

theorem listsCallers_callersOf (routines : List Routine) (name : Text) :
    ListsCallers routines (Text.lower name) ((ofRoutines routines).callersOf name) := by
  have hperm : ((ofRoutines routines).callersOf name).Perm
      (((ofRoutines routines).callers (Text.lower name)).map (ofRoutines routines).spelling) :=
    sortBy_perm _ _
  have hlower := hperm.map Text.lower
  rw [map_lower_spellings] at hlower
  refine ⟨fun u => ?_, fun shown hshown => ?_, ?_⟩
  · rw [hlower.mem_iff, mem_callers]
  · obtain ⟨u, hu, rfl⟩ := List.mem_map.mp (hperm.mem_iff.mp hshown)
    rw [spelling_eq, lower_lastSpelling (mem_callers.mp hu).named_left]
  · have hnodup := hlower.nodup_iff.mpr (nodup_callers routines (Text.lower name))
    exact (pairwise_sortBy ranks_lowerLe _).and (List.pairwise_map.mp hnodup)

/-! ## Paths -/

theorem mem_ancestors (h : Named routines v) :
    u ∈ (ofRoutines routines).ancestors v ↔ u ≠ v ∧ TransGen (Calls routines) u v := by
  have hreach : u ∈ reach (ofRoutines routines).callers (ofRoutines routines).keys.length [v] [v] ↔
      ReflTransGen (Calls routines) u v := by
    -- The search goes from a procedure to its callers, against the calls.
    have hcalls : (fun a b => b ∈ (ofRoutines routines).callers a) =
        Function.swap (Calls routines) :=
      funext fun _ => funext fun _ => propext mem_callers
    rw [mem_reach_iff (nodup_callers routines)
      (fun _ _ ht => mem_keys.mpr (mem_callers.mp ht).named_left) (mem_keys.mpr h), hcalls,
      reflTransGen_swap]
  rw [keys, List.length_map] at hreach
  rw [ancestors, List.mem_filter, hreach, bne_iff_ne, reflTransGen_iff_eq_or_transGen]
  constructor
  · rintro ⟨rfl | hpath, hne⟩
    · exact absurd rfl hne
    · exact ⟨hne, hpath⟩
  · exact fun ⟨hne, hpath⟩ => ⟨.inr hpath, hne⟩

theorem nodup_ancestors (routines : List Routine) (v : Text) :
    ((ofRoutines routines).ancestors v).Nodup :=
  (nodup_reach (nodup_callers routines) (List.nodup_singleton v)).filter _

/-! ## Hotspots -/

/-- All procedures that are called, those with the most callers first, then by name. -/
structure Ranking (routines : List Routine) (hotspots : List Hotspot) : Prop where
  mem : ∀ v, v ∈ hotspots.map (fun h => Text.lower h.name) ↔ ∃ u, Calls routines u v
  /-- A name and its schema are those of the last procedure of the name. -/
  shown : ∀ h ∈ hotspots, ∃ r : Routine, h.name = r.name ∧ h.schema = r.schema ∧
    (routines.filter fun r => Text.lower r.name == Text.lower h.name).getLast? = some r
  callers : ∀ h ∈ hotspots, {u | Calls routines u (Text.lower h.name)}.encard = h.callers
  transitiveCallers : ∀ h ∈ hotspots,
    {u | u ≠ Text.lower h.name ∧ TransGen (Calls routines) u (Text.lower h.name)}.encard =
      h.transitiveCallers
  ranked : hotspots.Pairwise fun a b => b.callers < a.callers ∨
    a.callers = b.callers ∧ lowerLe a.name b.name = true ∧ Text.lower a.name ≠ Text.lower b.name

def ranking (g : CallGraph) : List Hotspot :=
  sortBy Hotspot.rankedBefore ((g.nodes.map g.hotspotOf).filter fun h => decide (0 < h.callers))

theorem hotspots_eq_take (g : CallGraph) (limit : Nat) :
    g.hotspots limit = g.ranking.take limit := by
  rw [hotspots, upTo, if_pos (Int.natCast_nonneg limit), Int.toNat_natCast]
  rfl

theorem ranks_rankedBefore : Ranks Hotspot.rankedBefore := by
  have hiff (a b : Hotspot) : a.rankedBefore b = true ↔
      b.callers < a.callers ∨ a.callers = b.callers ∧ lowerLe a.name b.name = true := by
    simp [Hotspot.rankedBefore]
  refine ⟨fun a b => ?_, fun a b c => ?_⟩
  · rw [hiff, hiff]
    rcases Nat.lt_trichotomy a.callers b.callers with hlt | heq | hgt
    · exact .inr (.inl hlt)
    · exact (ranks_lowerLe.total a.name b.name).imp (fun h => .inr ⟨heq, h⟩)
        fun h => .inr ⟨heq.symm, h⟩
    · exact .inl (.inl hgt)
  · rw [hiff, hiff, hiff]
    rintro (hab | ⟨hab, hnames⟩) (hbc | ⟨hbc, hnames'⟩)
    · exact .inl (by omega)
    · exact .inl (by omega)
    · exact .inl (by omega)
    · exact .inr ⟨hab.trans hbc, ranks_lowerLe.trans _ _ _ hnames hnames'⟩

theorem exists_last_of_mem_nodes {node : Node} (h : node ∈ (ofRoutines routines).nodes) :
    ∃ r, (routines.filter fun r => Text.lower r.name == node.key).getLast? = some r ∧
      nodeOf r = node := by
  have hfind : (nodesOf routines).find? (fun n => n.key == node.key) = some node := by
    have hsome : ((nodesOf routines).find? fun n => n.key == node.key).isSome = true :=
      List.find?_isSome.mpr ⟨node, h, beq_self_eq_true node.key⟩
    obtain ⟨n, hn⟩ := Option.isSome_iff_exists.mp hsome
    rw [hn, List.inj_on_of_nodup_map (nodup_keys_nodesOf routines) (List.mem_of_find?_eq_some hn) h
      (by simpa using List.find?_some hn)]
  rw [find?_nodesOf] at hfind
  exact Option.map_eq_some_iff.mp hfind

private theorem lower_name_of_mem_nodes {node : Node} (h : node ∈ (ofRoutines routines).nodes) :
    Text.lower node.name = node.key := by
  obtain ⟨r, -, rfl⟩ := exists_last_of_mem_nodes h
  rfl

private theorem mem_ranking {g : CallGraph} {h : Hotspot} :
    h ∈ g.ranking ↔ ∃ node ∈ g.nodes, 0 < (g.callers node.key).length ∧ g.hotspotOf node = h := by
  rw [ranking, mem_sortBy, List.mem_filter, List.mem_map, decide_eq_true_iff]
  constructor
  · rintro ⟨⟨node, hnode, rfl⟩, hpos⟩
    exact ⟨node, hnode, hpos, rfl⟩
  · rintro ⟨node, hnode, hpos, rfl⟩
    exact ⟨⟨node, hnode, rfl⟩, hpos⟩

private theorem nodup_map_lower_ranking (routines : List Routine) :
    ((ofRoutines routines).ranking.map fun h => Text.lower h.name).Nodup := by
  have hkeys : (((ofRoutines routines).nodes.map (ofRoutines routines).hotspotOf).map
      fun h => Text.lower h.name) = (ofRoutines routines).keys := by
    rw [List.map_map]
    exact List.map_congr_left fun node hnode => lower_name_of_mem_nodes hnode
  refine ((sortBy_perm _ _).map _).nodup_iff.mpr ?_
  refine (List.filter_sublist.map _).nodup ?_
  rw [hkeys]
  exact nodup_keys routines

theorem ranking_ofRoutines (routines : List Routine) :
    Ranking routines (ofRoutines routines).ranking := by
  have hnodup := List.pairwise_map.mp (nodup_map_lower_ranking routines)
  refine ⟨fun v => ?_, fun h hh => ?_, fun h hh => ?_, fun h hh => ?_, ?_⟩
  · rw [List.mem_map]
    constructor
    · rintro ⟨h, hh, rfl⟩
      obtain ⟨node, hnode, hpos, rfl⟩ := mem_ranking.mp hh
      obtain ⟨u, hu⟩ := List.exists_mem_of_length_pos hpos
      exact ⟨u, (lower_name_of_mem_nodes hnode).symm ▸ mem_callers.mp hu⟩
    · rintro ⟨u, hu⟩
      obtain ⟨node, hnode, rfl⟩ := List.mem_map.mp (mem_keys.mpr hu.named_right)
      exact ⟨_, mem_ranking.mpr
        ⟨node, hnode, List.length_pos_of_mem (mem_callers.mpr hu), rfl⟩,
        lower_name_of_mem_nodes hnode⟩
  · obtain ⟨node, hnode, -, rfl⟩ := mem_ranking.mp hh
    obtain ⟨r, hlast, rfl⟩ := exists_last_of_mem_nodes hnode
    exact ⟨r, rfl, rfl, hlast⟩
  · obtain ⟨node, hnode, -, rfl⟩ := mem_ranking.mp hh
    refine encard_eq_length (nodup_callers routines node.key) fun u => ?_
    rw [mem_callers, ← lower_name_of_mem_nodes hnode]
    rfl
  · obtain ⟨node, hnode, -, rfl⟩ := mem_ranking.mp hh
    refine encard_eq_length (nodup_ancestors routines node.key) fun u => ?_
    rw [mem_ancestors (mem_keys.mp (List.mem_map_of_mem hnode)), ← lower_name_of_mem_nodes hnode]
    rfl
  · refine ((pairwise_sortBy ranks_rankedBefore _).and hnodup).imp fun {a b} hab => ?_
    obtain ⟨hranked, hne⟩ := hab
    simp only [Hotspot.rankedBefore, Bool.or_eq_true, decide_eq_true_eq, Bool.and_eq_true,
      beq_iff_eq] at hranked
    exact hranked.imp id fun h => ⟨h.1, h.2, hne⟩

/-! ## Edges -/

private theorem sum_ranking (g : CallGraph) :
    (g.ranking.map (·.callers)).sum = (g.nodes.map fun n => (g.callers n.key).length).sum := by
  have hpositive (ns : List Nat) : (ns.filter fun n => decide (0 < n)).sum = ns.sum := by
    induction ns with
    | nil => rfl
    | cons n ns ih =>
        rw [List.filter_cons]
        split
        · rw [List.sum_cons, List.sum_cons, ih]
        · rename_i hn
          have hzero : n = 0 := by simpa using hn
          rw [List.sum_cons, ih, hzero, Nat.zero_add]
  rw [ranking, ((sortBy_perm _ _).map _).sum_eq,
    ← hpositive (g.nodes.map fun n => (g.callers n.key).length), List.filter_map, List.filter_map,
    List.map_map]
  rfl

theorem sum_callers (routines : List Routine) :
    ((ofRoutines routines).ranking.map (·.callers)).sum = (ofRoutines routines).edges.length := by
  -- The edges are parted by the node they lead to.
  have hparted : ((ofRoutines routines).keys.flatMap fun v =>
      (ofRoutines routines).edges.filter fun e => e.2 == v).Perm (ofRoutines routines).edges := by
    refine perm_flatMap_filter (f := fun v (e : Text × Text) => e.2 == v) ?_ fun e he => ?_
    · refine (nodup_keys routines).imp fun hne e he => ?_
      rw [beq_iff_eq] at he
      simpa [he] using hne
    · exact ⟨e.2, mem_keys.mpr (mem_edges.mp he).named_right, beq_self_eq_true _⟩
  rw [sum_ranking, ← hparted.length_eq, List.length_flatMap, keys, List.map_map]
  exact congrArg List.sum (List.map_congr_left fun node _ => List.length_map _)

/-- What a summary tells about the calls of some procedures. -/
structure Agrees (routines : List Routine) (limit : Nat) (s : Summary) : Prop where
  edges : {e : Text × Text | Calls routines e.1 e.2}.encard = s.edges
  /-- A listed call is an edge or its spelling is unresolved, never both. -/
  calls : ∀ r ∈ routines, ∀ call ∈ r.calls,
    Xor (Calls routines (Text.lower r.name) (Text.lower call)) (call ∈ s.unresolvedCalls)
  listed : ∀ call ∈ s.unresolvedCalls, ∃ r ∈ routines, call ∈ r.calls
  distinct : s.unresolvedCalls.Nodup
  hotspots : ∃ ranked, Ranking routines ranked ∧ s.hotspots = ranked.take limit
  total : {v | Named routines v}.encard ≤ limit → (s.hotspots.map (·.callers)).sum = s.edges

theorem agrees_ofRoutines (routines : List Routine) (limit : Nat) :
    Agrees routines limit ((ofRoutines routines).summary limit) where
  edges := encard_eq_length (nodup_edges routines) fun _ => mem_edges
  calls r hr call hcall := by
    have hunresolved : call ∈ ((ofRoutines routines).summary limit).unresolvedCalls ↔
        ¬ Named routines (Text.lower call) := by
      change call ∈ sortBy _ _ ↔ _
      rw [mem_sortBy, mem_unresolved]
      exact and_iff_right ⟨r, hr, hcall⟩
    rw [hunresolved]
    by_cases hnamed : Named routines (Text.lower call)
    · exact .inl ⟨⟨⟨r, hr, rfl, call, hcall, rfl⟩, hnamed⟩, not_not_intro hnamed⟩
    · exact .inr ⟨hnamed, fun hcalls => hnamed hcalls.named_right⟩
  listed call hcall := (mem_unresolved.mp (mem_sortBy.mp hcall)).1
  distinct := (sortBy_perm _ _).nodup_iff.mpr (nodup_unresolved routines)
  hotspots := ⟨_, ranking_ofRoutines routines, hotspots_eq_take _ _⟩
  total hlimit := by
    have hkeys : (ofRoutines routines).nodes.length ≤ limit := by
      have hcard : {v | Named routines v}.encard = (ofRoutines routines).keys.length :=
        encard_eq_length (nodup_keys routines) fun _ => mem_keys
      rw [hcard, keys, List.length_map] at hlimit
      exact_mod_cast hlimit
    have hlength : (ofRoutines routines).ranking.length ≤ (ofRoutines routines).nodes.length := by
      rw [ranking, (sortBy_perm _ _).length_eq]
      exact (List.length_filter_le _ _).trans_eq (List.length_map _)
    rw [summary, hotspots_eq_take, List.take_of_length_le (hlength.trans hkeys)]
    exact sum_callers routines

end ProcCatalog.CallGraph
