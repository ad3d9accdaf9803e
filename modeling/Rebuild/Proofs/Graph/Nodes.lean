import Rebuild.Graph.Closure
import Mathlib.Logic.Relation
import Mathlib.Tactic

/-!
# Nodes under their paths

What a change of the graph does to the node that is stored under a path.  No two nodes of a graph
share a path, so a node is found under its own path, and a change of one node is seen under the
path of that node and nowhere else.
-/

namespace Rebuild.Graph

variable {graph : Graph} {node : Node} {path : Text}

theorem ext_nodes {first second : Graph} (hnodes : first.nodes = second.nodes) :
    first = second := by
  cases first
  cases second
  cases hnodes
  rfl

theorem nodup_inputs (graph : Graph) : graph.inputs.Nodup :=
  graph.distinct

theorem mem_inputs : path ∈ graph.inputs ↔ ∃ node ∈ graph.nodes, node.input = path :=
  List.mem_map

theorem input_mem_inputs (hnode : node ∈ graph.nodes) : node.input ∈ graph.inputs :=
  mem_inputs.2 ⟨node, hnode, rfl⟩

theorem length_inputs (graph : Graph) : graph.inputs.length = graph.size := by
  simp [inputs, size]

theorem eq_of_input_eq {first second : Node} (hfirst : first ∈ graph.nodes)
    (hsecond : second ∈ graph.nodes) (hinput : first.input = second.input) :
    first = second :=
  List.inj_on_of_nodup_map graph.distinct hfirst hsecond hinput

theorem get?_eq_some_iff :
    graph.get? path = some node ↔ node ∈ graph.nodes ∧ node.input = path := by
  constructor
  · intro hget
    exact ⟨List.mem_of_find?_eq_some hget, by simpa using List.find?_some hget⟩
  · rintro ⟨hnode, rfl⟩
    cases hget : graph.get? node.input with
    | none =>
        have hne := List.find?_eq_none.1 hget node hnode
        simp at hne
    | some found =>
        have hfound : found.input = node.input := by simpa using List.find?_some hget
        rw [eq_of_input_eq (List.mem_of_find?_eq_some hget) hnode hfound]

theorem get?_input (hnode : node ∈ graph.nodes) : graph.get? node.input = some node :=
  get?_eq_some_iff.2 ⟨hnode, rfl⟩

theorem get?_eq_none_iff : graph.get? path = none ↔ path ∉ graph.inputs := by
  unfold get?
  rw [List.find?_eq_none, mem_inputs]
  simp

theorem mem_inputs_of_get? (hget : graph.get? path = some node) : path ∈ graph.inputs := by
  obtain ⟨hnode, rfl⟩ := get?_eq_some_iff.1 hget
  exact input_mem_inputs hnode

@[simp] theorem nodes_empty : empty.nodes = [] :=
  rfl

@[simp] theorem inputs_empty : empty.inputs = [] :=
  rfl

section Map

variable {change : Node → Node} {hsame : ∀ node, (change node).input = node.input}

@[simp] theorem nodes_map : (graph.map change hsame).nodes = graph.nodes.map change :=
  rfl

@[simp] theorem inputs_map : (graph.map change hsame).inputs = graph.inputs := by
  simp [inputs, hsame]

theorem get?_map : (graph.map change hsame).get? path = (graph.get? path).map change := by
  unfold get?
  rw [nodes_map, List.find?_map]
  congr 2
  funext node
  simp [hsame]

@[simp] theorem inputs_update : (graph.update path change hsame).inputs = graph.inputs :=
  inputs_map

theorem get?_update {other : Text} :
    (graph.update path change hsame).get? other =
      if other = path then (graph.get? other).map change else graph.get? other := by
  rw [update, get?_map]
  cases hget : graph.get? other with
  | none => simp
  | some node =>
      have hinput : node.input = other := (get?_eq_some_iff.1 hget).2
      by_cases hother : other = path <;> simp [hinput, hother]

end Map

theorem nodes_addDependents {paths : PathSet} :
    (graph.addDependents path paths).nodes =
      graph.nodes.map fun node =>
        if node.input = path then node.withDependents paths else node :=
  rfl

theorem get?_addDependents {other : Text} {paths : PathSet} :
    (graph.addDependents path paths).get? other =
      if other = path then (graph.get? other).map (·.withDependents paths)
      else graph.get? other :=
  get?_update

theorem nodes_setMark {mark : Mark} :
    (graph.setMark path mark).nodes =
      graph.nodes.map fun node =>
        if node.input = path then { node with mark } else node :=
  rfl

theorem get?_setMark {other : Text} {mark : Mark} :
    (graph.setMark path mark).get? other =
      if other = path then (graph.get? other).map fun node => { node with mark }
      else graph.get? other :=
  get?_update

theorem nodes_recordModule {reference target : Text} :
    (graph.recordModule path reference target).nodes =
      graph.nodes.map fun node =>
        if node.input = path then node.withModule reference target else node :=
  rfl

@[simp] theorem inputs_recordModule {reference target : Text} :
    (graph.recordModule path reference target).inputs = graph.inputs :=
  inputs_update

theorem nodes_add (hnew : node.input ∉ graph.inputs) :
    (graph.add node).nodes = graph.nodes ++ [node] := by
  have hhas : ¬graph.has node.input = true := fun h => hnew (has_eq_true_iff.1 h)
  simp [add, hhas]

theorem inputs_add (hnew : node.input ∉ graph.inputs) :
    (graph.add node).inputs = graph.inputs ++ [node.input] := by
  simp [inputs, nodes_add hnew]

end Rebuild.Graph
