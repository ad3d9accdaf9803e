import Rebuild.Graph.Basic
import Rebuild.Order.Sort

/-!
# Closing the dependents

An edge leads from a node to each path recorded for one of its modules.  Along an edge between
nodes the target takes over the source and all dependents of the source.  A pass goes along every
edge once, in place, and passes are repeated until one changes nothing; then the dependents of a
node are exactly the nodes from which it can be reached.  A pass carries every dependent at least
one edge further, so one pass more than there are nodes is always enough.

A node is on a cycle exactly when it is its own dependent.
-/

namespace Rebuild.Graph

def edges (graph : Graph) : List (Text × Text) :=
  graph.nodes.flatMap fun node => node.modules.map fun pair => (node.input, pair.2)

def relax (graph : Graph) (edge : Text × Text) : Graph :=
  match graph.get? edge.1 with
  | some source => graph.addDependents edge.2 (source.dependents.insert edge.1)
  | none => graph

def pass (graph : Graph) : Graph :=
  graph.edges.foldl relax graph

/-- The number of dependents of all nodes together. -/
def dependentTotal (graph : Graph) : Nat :=
  graph.nodes.foldr (fun node total => node.dependents.size + total) 0

def closeWithin : (passes : Nat) → Graph → Graph
  | 0, graph => graph
  | passes + 1, graph =>
    if graph.pass.dependentTotal = graph.dependentTotal then graph.pass
    else closeWithin passes graph.pass

def close (graph : Graph) : Graph :=
  closeWithin (graph.size + 1) graph

/-- The paths of all nodes on a cycle, in order. -/
def cycles (graph : Graph) : List Text :=
  Order.sortTexts ((graph.nodes.filter fun node => node.input ∈ node.dependents).map Node.input)

end Rebuild.Graph
