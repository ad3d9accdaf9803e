import Rebuild.Graph.Count

/-!
# Marking

A changed file is compiled and its dependents are type-checked again.  The walk over dependents
stops at every node that carries a mark, and at the nodes it has seen.  Each level of the walk
marks another node, so one level more than there are nodes is enough.
-/

namespace Rebuild.Graph

/-- Marks a node and what depends on it for a type check; the state is the graph and the paths
seen. -/
def spreadWithin : (levels : Nat) → Text → Graph × List Text → Graph × List Text
  | 0, _, state => state
  | levels + 1, path, (graph, seen) =>
    match graph.get? path with
    | none => (graph, seen)
    | some node =>
      if node.mark ≠ .unset ∨ path ∈ seen then (graph, seen)
      else
        node.dependents.toList.foldl (fun state dependent => spreadWithin levels dependent state)
          (graph.setMark path .typecheck, path :: seen)

def spread (graph : Graph) (seen : List Text) (path : Text) : Graph × List Text :=
  spreadWithin (graph.size + 1) path (graph, seen)

def markTypecheck (graph : Graph) (path : Text) : Graph :=
  (graph.spread [] path).1

def markCompile (graph : Graph) (path : Text) : Graph :=
  match graph.get? path with
  | none => graph
  | some node =>
    if node.mark = .compile then graph
    else
      (node.dependents.toList.foldl (fun (graph, seen) dependent => graph.spread seen dependent)
        (graph.setMark path .compile, [path])).1

/-- Marks for compilation each node for which the test answers yes.  The test is asked once for
every node, in the order of the nodes; it may fail, or keep a record. -/
def markEach [Monad m] (graph : Graph) (test : Text → m Bool) : m Graph :=
  (graph.ordered.map Node.input).foldlM
    (fun graph path => do
      if ← test path then pure (graph.markCompile path) else pure graph)
    graph

end Rebuild.Graph
