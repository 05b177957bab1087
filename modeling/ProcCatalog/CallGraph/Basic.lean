import ProcCatalog.Text.Lower

/-!
# Call graphs

The nodes of a call graph are the procedures of a script under their bare names in small letters;
of several procedures with one such name the last gives the spelling and the schema. An edge leads
from a caller to a procedure that it calls. A call to any other name is unresolved.
-/

namespace ProcCatalog

structure Routine where
  schema : Text
  name : Text
  calls : List Text
  deriving DecidableEq, Repr

namespace CallGraph

structure Node where
  key : Text
  name : Text
  schema : Text
  deriving DecidableEq, Repr

end CallGraph

structure CallGraph where
  nodes : List CallGraph.Node
  edges : List (Text × Text)
  unresolved : List Text
  deriving DecidableEq, Repr

namespace CallGraph

/-! ## Building -/

def putNode (node : Node) : List Node → List Node
  | [] => [node]
  | n :: ns => if n.key = node.key then node :: ns else n :: putNode node ns

def nodesOf (routines : List Routine) : List Node :=
  routines.foldl (fun nodes r => putNode ⟨Text.lower r.name, r.name, r.schema⟩ nodes) []

/-- All listed calls, as pairs of the caller and the name it calls. -/
def callsOf (routines : List Routine) : List (Text × Text) :=
  routines.flatMap fun r => r.calls.map fun call => (r.name, call)

def ofRoutines (routines : List Routine) : CallGraph :=
  let nodes := nodesOf routines
  let keys := nodes.map (·.key)
  let isNode (call : Text × Text) : Bool := keys.contains (Text.lower call.2)
  let (resolved, others) := (callsOf routines).partition isNode
  { nodes
    edges := distinct (resolved.map fun (caller, callee) => (Text.lower caller, Text.lower callee))
    unresolved := distinct (others.map (·.2)) }

/-! ## Neighbours -/

def keys (g : CallGraph) : List Text := g.nodes.map (·.key)

def node? (g : CallGraph) (key : Text) : Option Node := g.nodes.find? fun n => n.key == key

/-- The spelling under which a node is shown. -/
def spelling (g : CallGraph) (key : Text) : Text := ((g.node? key).map (·.name)).getD key

def callers (g : CallGraph) (key : Text) : List Text :=
  (g.edges.filter fun e => e.2 == key).map (·.1)

def callees (g : CallGraph) (key : Text) : List Text :=
  (g.edges.filter fun e => e.1 == key).map (·.2)

def lowerLe (s t : Text) : Bool := Text.le (Text.lower s) (Text.lower t)

/-- The spellings of the callers of a procedure, ascending without regard to case. -/
def callersOf (g : CallGraph) (name : Text) : List Text :=
  sortBy lowerLe ((g.callers (Text.lower name)).map g.spelling)

/-! ## Reachability -/

/-- What is reached from `todo`, beside what is in `seen`, in at most `rounds` visits. -/
def reach (next : Text → List Text) : Nat → List Text → List Text → List Text
  | 0, _, seen => seen
  | _ + 1, [], seen => seen
  | rounds + 1, key :: todo, seen =>
    let fresh := (next key).filter fun k => !seen.contains k
    reach next rounds (fresh ++ todo) (fresh ++ seen)

/-- The other nodes from which a path leads to a node. -/
def ancestors (g : CallGraph) (key : Text) : List Text :=
  (reach g.callers g.nodes.length [key] [key]).filter (· != key)

end CallGraph

end ProcCatalog
