import Rebuild.Graph.Node
import Rebuild.Path.Basic

/-!
# The dependency graph

A graph is a list of nodes in the order in which they were inserted, no two of them for the same
path.  Nodes are found under any spelling of their path.
-/

namespace Rebuild

structure Graph where
  nodes : List Node
  distinct : (nodes.map Node.input).Nodup
  deriving DecidableEq

namespace Graph

def empty : Graph := ⟨[], List.nodup_nil⟩

instance : Inhabited Graph := ⟨empty⟩

def size (graph : Graph) : Nat :=
  graph.nodes.length

def inputs (graph : Graph) : List Text :=
  graph.nodes.map Node.input

/-- The node stored under a path as it is written. -/
def get? (graph : Graph) (path : Text) : Option Node :=
  graph.nodes.find? fun node => node.input == path

/-- Whether a node is stored under a path as it is written. -/
def has (graph : Graph) (path : Text) : Bool :=
  graph.nodes.any fun node => node.input == path

/-- The node of the file that a text names. -/
def find? (graph : Graph) (text : Text) : Option Node :=
  graph.get? (Path.canonical text)

def contains (graph : Graph) (text : Text) : Bool :=
  (graph.find? text).isSome

theorem has_eq_true_iff {graph : Graph} {path : Text} :
    graph.has path = true ↔ path ∈ graph.inputs := by
  simp [has, inputs]

/-- Adds a node at the end, unless there is one for its path already. -/
def add (graph : Graph) (node : Node) : Graph :=
  if h : graph.has node.input = true then graph
  else
    { nodes := graph.nodes ++ [node]
      distinct := by
        have hnot : node.input ∉ graph.nodes.map Node.input := fun hmem =>
          h (has_eq_true_iff.2 hmem)
        rw [List.map_append, List.nodup_append]
        refine ⟨graph.distinct, by simp, fun a ha b hb => ?_⟩
        rintro rfl
        simp only [List.map_cons, List.map_nil, List.mem_singleton] at hb
        exact hnot (hb ▸ ha) }

/-- Changes every node, but not the path it is stored under. -/
def map (change : Node → Node) (graph : Graph)
    (same_input : ∀ node, (change node).input = node.input) : Graph :=
  { nodes := graph.nodes.map change
    distinct := by
      have hinputs : (graph.nodes.map change).map Node.input = graph.nodes.map Node.input := by
        simp [same_input]
      exact hinputs ▸ graph.distinct }

/-- Changes the node stored under a path, if there is one. -/
def update (graph : Graph) (path : Text) (change : Node → Node)
    (same_input : ∀ node, (change node).input = node.input) : Graph :=
  graph.map (fun node => if node.input = path then change node else node) fun node => by
    split
    · exact same_input node
    · rfl

def recordModule (graph : Graph) (path reference target : Text) : Graph :=
  graph.update path (·.withModule reference target) fun _ => rfl

def addDependents (graph : Graph) (path : Text) (paths : PathSet) : Graph :=
  graph.update path (·.withDependents paths) fun _ => rfl

def setMark (graph : Graph) (path : Text) (mark : Mark) : Graph :=
  graph.update path (fun node => { node with mark }) fun _ => rfl

def withOutputs (graph : Graph) (output : Text → Option Text) : Graph :=
  graph.map (fun node => { node with output := output node.input }) fun _ => rfl

/-- A graph of the given nodes; of two nodes for one path the later counts, in the place of the
earlier. -/
def ofNodes (nodes : List Node) : Graph :=
  nodes.foldl
    (fun graph node =>
      if graph.has node.input then
        graph.update node.input (fun old => { node with input := old.input }) fun _ => rfl
      else graph.add node)
    empty

end Graph

end Rebuild
