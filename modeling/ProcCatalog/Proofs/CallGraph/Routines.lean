import ProcCatalog.CallGraph.Basic
import ProcCatalog.Proofs.Text.Order

/-!
# The call graph of a list of procedures

Every name of a procedure, in small letters, is the key of exactly one node, and an edge leads from
one key to another exactly if some procedure of the first name calls one of the second. The last
procedure of a name tells how it is spelled.
-/

namespace ProcCatalog.CallGraph

variable {routines : List Routine} {u v key : Text}

/-! ## Names and calls -/

/-- A procedure has this name in small letters. -/
def Named (routines : List Routine) (key : Text) : Prop :=
  ∃ r ∈ routines, Text.lower r.name = key

/-- A procedure of the first name lists a call to the second, which is a procedure's as well. -/
def Calls (routines : List Routine) (u v : Text) : Prop :=
  (∃ r ∈ routines, Text.lower r.name = u ∧ ∃ call ∈ r.calls, Text.lower call = v) ∧
    Named routines v

/-- How the last procedure of a name spells it. -/
def lastSpelling (routines : List Routine) (key : Text) : Text :=
  (((routines.filter fun r => Text.lower r.name == key).getLast?).map (·.name)).getD key

/-! ## Nodes -/

private theorem find?_putNode (node : Node) (ns : List Node) (key : Text) :
    (putNode node ns).find? (fun n => n.key == key) =
      if node.key = key then some node else ns.find? fun n => n.key == key := by
  induction ns with
  | nil => by_cases h : node.key = key <;> simp [putNode, h]
  | cons n ns ih =>
      by_cases hn : n.key = node.key
      · by_cases h : node.key = key <;> simp [putNode, hn, h]
      · rw [putNode, if_neg hn]
        by_cases h : n.key = key
        · have hne : ¬ node.key = key := fun heq => hn (h.trans heq.symm)
          simp [h, hne]
        · simp [h, ih]

private theorem keys_putNode (node : Node) (ns : List Node) :
    (putNode node ns).map (·.key) =
      if node.key ∈ ns.map (·.key) then ns.map (·.key) else ns.map (·.key) ++ [node.key] := by
  induction ns with
  | nil => rfl
  | cons n ns ih =>
      by_cases hn : n.key = node.key
      · simp [putNode, hn]
      · have hne : ¬ node.key = n.key := fun heq => hn heq.symm
        rw [putNode, if_neg hn, List.map_cons, ih, List.map_cons]
        by_cases hmem : node.key ∈ ns.map (·.key)
        · rw [if_pos hmem, if_pos (List.mem_cons_of_mem _ hmem)]
        · rw [if_neg hmem, if_neg (by simpa [hne] using hmem), List.cons_append]

def nodeOf (r : Routine) : Node := ⟨Text.lower r.name, r.name, r.schema⟩

private theorem nodesOf_append (routines : List Routine) (r : Routine) :
    nodesOf (routines ++ [r]) = putNode (nodeOf r) (nodesOf routines) := by
  rw [nodesOf, List.foldl_append]
  rfl

theorem find?_nodesOf (routines : List Routine) (key : Text) :
    (nodesOf routines).find? (fun n => n.key == key) =
      ((routines.filter fun r => Text.lower r.name == key).getLast?).map nodeOf := by
  induction routines using List.reverseRecOn with
  | nil => rfl
  | append_singleton routines r ih =>
      rw [nodesOf_append, find?_putNode, ih, List.filter_append]
      by_cases h : Text.lower r.name = key <;> simp [nodeOf, h]

theorem nodup_keys_nodesOf (routines : List Routine) :
    ((nodesOf routines).map (·.key)).Nodup := by
  induction routines using List.reverseRecOn with
  | nil => exact .nil
  | append_singleton routines r ih =>
      rw [nodesOf_append, keys_putNode]
      split
      · exact ih
      · rename_i hnew
        exact List.nodup_append.mpr ⟨ih, List.nodup_singleton _, by
          rintro k hk _ hnode rfl
          exact hnew (by simpa [List.mem_singleton.mp hnode] using hk)⟩

theorem mem_keys_nodesOf : key ∈ (nodesOf routines).map (·.key) ↔ Named routines key := by
  have hfind : key ∈ (nodesOf routines).map (·.key) ↔
      ((nodesOf routines).find? fun n => n.key == key).isSome := by
    simp [List.find?_isSome]
  rw [hfind, find?_nodesOf, Option.isSome_map, List.getLast?_isSome, Named]
  simp [List.filter_eq_nil_iff]

theorem mem_keys : key ∈ (ofRoutines routines).keys ↔ Named routines key := mem_keys_nodesOf

theorem nodup_keys (routines : List Routine) : (ofRoutines routines).keys.Nodup :=
  nodup_keys_nodesOf routines

theorem spelling_eq (routines : List Routine) (key : Text) :
    (ofRoutines routines).spelling key = lastSpelling routines key := by
  change (((nodesOf routines).find? fun n => n.key == key).map (·.name)).getD key = _
  rw [find?_nodesOf, Option.map_map]
  rfl

theorem exists_lastSpelling (h : Named routines key) :
    ∃ r ∈ routines, r.name = lastSpelling routines key ∧ Text.lower r.name = key := by
  obtain ⟨r, hr, hkey⟩ := h
  have hne : routines.filter (fun r => Text.lower r.name == key) ≠ [] := by
    simpa [List.filter_eq_nil_iff] using ⟨r, hr, hkey⟩
  have hlast := List.getLast_mem hne
  rw [List.mem_filter, beq_iff_eq] at hlast
  refine ⟨_, hlast.1, ?_, hlast.2⟩
  rw [lastSpelling, List.getLast?_eq_some_getLast hne]
  rfl

theorem lower_lastSpelling (h : Named routines key) :
    Text.lower (lastSpelling routines key) = key := by
  obtain ⟨r, -, hname, hkey⟩ := exists_lastSpelling h
  rw [← hname, hkey]

/-! ## Edges -/

theorem edges_ofRoutines (routines : List Routine) :
    (ofRoutines routines).edges =
      distinct (((callsOf routines).filter fun call =>
        ((nodesOf routines).map (·.key)).contains (Text.lower call.2)).map
          fun call => (Text.lower call.1, Text.lower call.2)) := by
  simp [ofRoutines, List.partition_eq_filter_filter]

theorem mem_edges : (u, v) ∈ (ofRoutines routines).edges ↔ Calls routines u v := by
  rw [edges_ofRoutines, mem_distinct, List.mem_map, Calls]
  simp only [List.mem_filter, List.contains_iff_mem, mem_keys_nodesOf]
  simp only [callsOf, List.mem_flatMap, List.mem_map, Prod.exists, Prod.mk.injEq]
  constructor
  · rintro ⟨_, _, ⟨⟨r, hr, call, hcall, rfl, rfl⟩, hnamed⟩, rfl, rfl⟩
    exact ⟨⟨r, hr, rfl, call, hcall, rfl⟩, hnamed⟩
  · rintro ⟨⟨r, hr, rfl, call, hcall, rfl⟩, hnamed⟩
    exact ⟨r.name, call, ⟨⟨r, hr, call, hcall, rfl, rfl⟩, hnamed⟩, rfl, rfl⟩

theorem nodup_edges (routines : List Routine) : (ofRoutines routines).edges.Nodup := by
  rw [edges_ofRoutines]
  exact nodup_distinct _

theorem Calls.named_right (h : Calls routines u v) : Named routines v := h.2

theorem Calls.named_left (h : Calls routines u v) : Named routines u := by
  obtain ⟨⟨r, hr, hname, -⟩, -⟩ := h
  exact ⟨r, hr, hname⟩

theorem mem_callees : v ∈ (ofRoutines routines).callees u ↔ Calls routines u v := by
  rw [← mem_edges, callees]
  simp

theorem nodup_callees (routines : List Routine) (u : Text) :
    ((ofRoutines routines).callees u).Nodup := by
  refine List.Nodup.map_on ?_ ((nodup_edges routines).filter _)
  rintro ⟨a, b⟩ hab ⟨c, d⟩ hcd (rfl : b = d)
  have ha : a = u := by simpa using (List.mem_filter.mp hab).2
  have hc : c = u := by simpa using (List.mem_filter.mp hcd).2
  rw [ha, hc]

theorem mem_callers : u ∈ (ofRoutines routines).callers v ↔ Calls routines u v := by
  rw [← mem_edges, callers]
  simp

theorem nodup_callers (routines : List Routine) (v : Text) :
    ((ofRoutines routines).callers v).Nodup := by
  refine List.Nodup.map_on ?_ ((nodup_edges routines).filter _)
  rintro ⟨a, b⟩ hab ⟨c, d⟩ hcd (rfl : a = c)
  have hb : b = v := by simpa using (List.mem_filter.mp hab).2
  have hd : d = v := by simpa using (List.mem_filter.mp hcd).2
  rw [hb, hd]

/-! ## Calls to other names -/

theorem mem_unresolved {call : Text} :
    call ∈ (ofRoutines routines).unresolved ↔
      (∃ r ∈ routines, call ∈ r.calls) ∧ ¬ Named routines (Text.lower call) := by
  have hothers : (ofRoutines routines).unresolved =
      distinct (((callsOf routines).filter fun call =>
        !((nodesOf routines).map (·.key)).contains (Text.lower call.2)).map (·.2)) := by
    simp [ofRoutines, List.partition_eq_filter_filter, Function.comp_def]
  rw [hothers, mem_distinct, List.mem_map]
  simp only [List.mem_filter, Bool.not_eq_true', ← Bool.not_eq_true, List.contains_iff_mem,
    mem_keys_nodesOf]
  simp only [callsOf, List.mem_flatMap, List.mem_map]
  constructor
  · rintro ⟨_, ⟨⟨r, hr, call, hcall, rfl⟩, hother⟩, rfl⟩
    exact ⟨⟨r, hr, hcall⟩, hother⟩
  · rintro ⟨⟨r, hr, hcall⟩, hother⟩
    exact ⟨(r.name, call), ⟨⟨r, hr, call, hcall, rfl⟩, hother⟩, rfl⟩

theorem nodup_unresolved (routines : List Routine) : (ofRoutines routines).unresolved.Nodup :=
  nodup_distinct _

end ProcCatalog.CallGraph
