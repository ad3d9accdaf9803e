import Rebuild.Graph.Basic
import Rebuild.Order.Sort

/-!
# Dependent counts and the order of nodes

The count of a node adds one and the count of the dependent for each dependent that is a node.
As dependents are closed this counts chains of dependents, so a file that many others build on
through many ways weighs most, and in a graph without cycles every file weighs more than each of
its dependents.  Nodes are ordered by falling count, and by path where counts are equal, which puts
every file before the files that require it.

Counts are found by a depth-first search that keeps those already found.  A node that is met again
while its own count is still open counts as nothing; this happens on cycles only.  Every level of
the search opens another node, so one level more than there are nodes is enough.
-/

namespace Rebuild.Graph

/-- The counts found so far, in the order in which they were finished. -/
abbrev Counts := List (Text × Nat)

def dependentsOf (graph : Graph) (path : Text) : List Text :=
  match graph.get? path with
  | some node => node.dependents.toList.filter graph.has
  | none => []

/-- The count of a path and the counts found by then; `opened` holds the paths whose counts wait
for this one. -/
def countWithin (graph : Graph) :
    (levels : Nat) → (opened : List Text) → Counts → Text → Counts × Nat
  | 0, _, counts, _ => (counts, 0)
  | levels + 1, opened, counts, path =>
    match counts.lookup path with
    | some count => (counts, count)
    | none =>
      if path ∈ opened then (counts, 0)
      else
        let (counts, total) := (graph.dependentsOf path).foldl
          (fun (counts, total) dependent =>
            let (counts, count) := countWithin graph levels (path :: opened) counts dependent
            (counts, total + (1 + count)))
          (counts, 0)
        (counts ++ [(path, total)], total)

def dependentCounts (graph : Graph) : Counts :=
  graph.inputs.foldl (fun counts path => (graph.countWithin (graph.size + 1) [] counts path).1) []

def countIn (counts : Counts) (path : Text) : Nat :=
  (counts.lookup path).getD 0

/-- Whether a path stands before another one, given their counts. -/
def precedes (counts : Counts) (first second : Text) : Bool :=
  countIn counts second < countIn counts first ||
    (countIn counts first == countIn counts second && first ≤ second)

/-- The nodes with the most dependents first. -/
def ordered (graph : Graph) : List Node :=
  let counts := graph.dependentCounts
  Order.sortBy (fun first second => precedes counts first.input second.input) graph.nodes

def marked (graph : Graph) (mark : Mark) : List Node :=
  graph.ordered.filter fun node => node.mark = mark

end Rebuild.Graph
