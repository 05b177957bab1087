import ProcCatalog.CallGraph.Cycle

/-!
# Summaries of call graphs

The number of edges, the cycles, the procedures with the most callers and the unresolved calls.
-/

namespace ProcCatalog.CallGraph

structure Hotspot where
  name : Text
  schema : Text
  callers : Nat
  transitiveCallers : Nat
  deriving DecidableEq, Repr

structure Summary where
  edges : Nat
  cycles : List (List Text)
  hotspots : List Hotspot
  unresolvedCalls : List Text
  deriving DecidableEq, Repr

def hotspotOf (g : CallGraph) (node : Node) : Hotspot :=
  { name := node.name
    schema := node.schema
    callers := (g.callers node.key).length
    transitiveCallers := (g.ancestors node.key).length }

/-- The most callers first, then by name without regard to case. -/
def Hotspot.rankedBefore (a b : Hotspot) : Bool :=
  b.callers < a.callers || (a.callers == b.callers && lowerLe a.name b.name)

def hotspots (g : CallGraph) (limit : Int) : List Hotspot :=
  upTo limit (sortBy Hotspot.rankedBefore
    ((g.nodes.map g.hotspotOf).filter fun h => decide (0 < h.callers)))

def summary (g : CallGraph) (hotspotLimit : Int) : Summary :=
  { edges := g.edges.length
    cycles := g.cycles
    hotspots := g.hotspots hotspotLimit
    unresolvedCalls := sortBy lowerLe g.unresolved }

end ProcCatalog.CallGraph
