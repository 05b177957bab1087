import ProcCatalog.CallGraph.Basic

/-!
# Call cycles

An elementary cycle is told by its nodes, beginning with the least. At most a hundred cycles are
counted, those of one node first; only cycles of two or more nodes are reported.
-/

namespace ProcCatalog.CallGraph

def comesAfter (start key : Text) : Bool := Text.le start key && start != key

/-- A path to `start` leads from a node through later nodes that are not on the path so far. -/
def canClose (g : CallGraph) (start : Text) (path : List Text) (key : Text) : Bool :=
  let next (k : Text) : List Text :=
    (g.callees k).filter fun t => t == start || (comesAfter start t && !path.contains t)
  (reach next g.nodes.length [key] [key]).contains start

/-- At most `budget` cycles through `start`, its least node, that go on from a path, last node
first. -/
def cyclesAlong (g : CallGraph) (start : Text) : Nat → Nat → List Text → List (List Text)
  | 0, _, _ => []
  | steps + 1, budget, path =>
    (g.callees (path.headD start)).foldl (fun found key =>
      if budget ≤ found.length then found
      else if key == start then
        (if path.length < 2 then found else found ++ [path.reverse])
      else if comesAfter start key && !path.contains key && g.canClose start path key then
        found ++ cyclesAlong g start steps (budget - found.length) (key :: path)
      else found) []

/-- At most `budget` cycles of two or more nodes. -/
def longCycles (g : CallGraph) (budget : Nat) : List (List Text) :=
  (Text.sorted g.keys).foldl (fun found start =>
    found ++ g.cyclesAlong start g.nodes.length (budget - found.length) [start]) []

def selfCalls (g : CallGraph) : Nat := g.edges.countP fun e => e.1 == e.2

def maxCycles : Nat := 100

/-- The cycles in the spellings of their nodes, ascending without regard to case. -/
def cycles (g : CallGraph) : List (List Text) :=
  sortBy (fun a b => lexLe Text.le (a.map Text.lower) (b.map Text.lower))
    ((g.longCycles (maxCycles - g.selfCalls)).map fun cycle => cycle.map g.spelling)

end ProcCatalog.CallGraph
