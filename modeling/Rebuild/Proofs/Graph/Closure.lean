import Rebuild.Proofs.Graph.Reach
import Rebuild.Proofs.Order.Sorted

/-!
# What closing the dependents adds

A pass changes dependents only, never takes one away, and carries what a node has along each of its
edges.  So after `k` passes a node has what stands at most `k` edges before it, and never anything
that does not stand before it on some path.  A pass that leaves the number of dependents as it was
changes nothing at all, which is why stopping there is the same as going on.

Together the closed graph holds, at every node and from any start, the first dependents of the node,
all nodes from which it is reached, and the first dependents of those.
-/

namespace Rebuild.Graph

variable {graph : Graph} {path dependent : Text}

def dependentsAt (graph : Graph) (path : Text) : PathSet :=
  ((graph.get? path).map Node.dependents).getD ∅

theorem dependentsAt_input {node : Node} (hnode : node ∈ graph.nodes) :
    graph.dependentsAt node.input = node.dependents := by
  simp [dependentsAt, get?_input hnode]

theorem mem_inputs_of_mem_dependentsAt (hmem : dependent ∈ graph.dependentsAt path) :
    path ∈ graph.inputs := by
  by_contra hpath
  simp [dependentsAt, get?_eq_none_iff.2 hpath] at hmem

/-- The nodes without their dependents: what no pass changes. -/
def frame (graph : Graph) : List Node :=
  graph.nodes.map fun node => { node with dependents := ∅ }

theorem inputs_eq_map_frame (graph : Graph) : graph.inputs = graph.frame.map Node.input := by
  simp [inputs, frame]

theorem edges_eq_flatMap_frame (graph : Graph) :
    graph.edges =
      graph.frame.flatMap fun node => node.modules.map fun pair => (node.input, pair.2) := by
  simp [edges, frame, List.flatMap_map]

theorem inputs_eq_of_frame_eq {first second : Graph} (hframe : first.frame = second.frame) :
    first.inputs = second.inputs := by
  rw [inputs_eq_map_frame, inputs_eq_map_frame, hframe]

theorem edges_eq_of_frame_eq {first second : Graph} (hframe : first.frame = second.frame) :
    first.edges = second.edges := by
  rw [edges_eq_flatMap_frame, edges_eq_flatMap_frame, hframe]

theorem edge_eq_of_frame_eq {first second : Graph} (hframe : first.frame = second.frame) :
    first.Edge = second.Edge := by
  funext source target
  rw [eq_iff_iff, edge_iff_mem_edges, edge_iff_mem_edges, edges_eq_of_frame_eq hframe,
    inputs_eq_of_frame_eq hframe]

theorem nodes_eq_of_frame_eq {first second : Graph} (hframe : first.frame = second.frame) :
    first.nodes =
      second.nodes.map fun node =>
        { node with dependents := first.dependentsAt node.input } := by
  have hself :
      first.nodes =
        first.frame.map fun node =>
          { node with dependents := first.dependentsAt node.input } := by
    rw [frame, List.map_map]
    conv_lhs => rw [← List.map_id first.nodes]
    apply List.map_congr_left
    intro node hnode
    simp [dependentsAt_input hnode]
  rw [hself, hframe, frame, List.map_map]
  rfl

/-- Graphs that differ in dependents only are equal as soon as these are. -/
theorem eq_of_frame_eq {first second : Graph} (hframe : first.frame = second.frame)
    (hdependents : ∀ path, first.dependentsAt path = second.dependentsAt path) :
    first = second := by
  apply ext_nodes
  rw [nodes_eq_of_frame_eq hframe]
  conv_rhs => rw [nodes_eq_of_frame_eq (Eq.refl second.frame)]
  simp [hdependents]

/-! ## One edge -/

theorem frame_addDependents {paths : PathSet} :
    (graph.addDependents path paths).frame = graph.frame := by
  rw [frame, nodes_addDependents, List.map_map, frame]
  apply List.map_congr_left
  intro node _
  by_cases hinput : node.input = path <;> simp [hinput, Node.withDependents]

theorem mem_dependentsAt_addDependents {other : Text} {paths : PathSet} :
    dependent ∈ (graph.addDependents other paths).dependentsAt path ↔
      dependent ∈ graph.dependentsAt path ∨
        (path = other ∧ path ∈ graph.inputs ∧ dependent ∈ paths) := by
  unfold dependentsAt
  rw [get?_addDependents]
  cases hget : graph.get? path with
  | none =>
      have hpath := get?_eq_none_iff.1 hget
      simp [hpath]
  | some node =>
      have hpath := mem_inputs_of_get? hget
      by_cases hother : path = other
      · simp [← hother, hpath, Node.withDependents]
      · simp [hother]

theorem frame_relax {edge : Text × Text} : (graph.relax edge).frame = graph.frame := by
  unfold relax
  cases graph.get? edge.1 with
  | none => rfl
  | some source => exact frame_addDependents

theorem mem_dependentsAt_relax {edge : Text × Text} :
    dependent ∈ (graph.relax edge).dependentsAt path ↔
      dependent ∈ graph.dependentsAt path ∨
        (path = edge.2 ∧ path ∈ graph.inputs ∧ edge.1 ∈ graph.inputs ∧
          (dependent = edge.1 ∨ dependent ∈ graph.dependentsAt edge.1)) := by
  unfold relax
  cases hget : graph.get? edge.1 with
  | none =>
      have hsource := get?_eq_none_iff.1 hget
      simp [hsource]
  | some source =>
      have hsource := mem_inputs_of_get? hget
      have hdependents : graph.dependentsAt edge.1 = source.dependents := by
        simp [dependentsAt, hget]
      simp only [mem_dependentsAt_addDependents, PathSet.mem_insert, hsource, hdependents,
        true_and]

/-! ## One pass -/

/-- Along every edge the target has the source and everything that the source has. -/
def TakesOver (graph : Graph) (family : Text → Text → Prop) : Prop :=
  ∀ source target, graph.Edge source target →
    family target source ∧ ∀ path, family source path → family target path

theorem frame_foldl_relax {edges : List (Text × Text)} :
    (edges.foldl relax graph).frame = graph.frame := by
  induction edges generalizing graph with
  | nil => rfl
  | cons edge rest ih => exact ih.trans frame_relax

theorem frame_pass : graph.pass.frame = graph.frame :=
  frame_foldl_relax

theorem mem_foldl_relax_of_mem {edges : List (Text × Text)}
    (hmem : dependent ∈ graph.dependentsAt path) :
    dependent ∈ (edges.foldl relax graph).dependentsAt path := by
  induction edges generalizing graph with
  | nil => exact hmem
  | cons edge rest ih => exact ih (mem_dependentsAt_relax.2 (Or.inl hmem))

theorem mem_pass_of_mem (hmem : dependent ∈ graph.dependentsAt path) :
    dependent ∈ graph.pass.dependentsAt path :=
  mem_foldl_relax_of_mem hmem

theorem mem_foldl_relax_of_edge {edges : List (Text × Text)} {edge : Text × Text}
    (hedge : edge ∈ edges) (hsource : edge.1 ∈ graph.inputs) (htarget : edge.2 ∈ graph.inputs)
    (hdependent : dependent = edge.1 ∨ dependent ∈ graph.dependentsAt edge.1) :
    dependent ∈ (edges.foldl relax graph).dependentsAt edge.2 := by
  induction edges generalizing graph with
  | nil => cases hedge
  | cons first rest ih =>
      rw [List.foldl_cons]
      rcases List.mem_cons.1 hedge with rfl | hrest
      · apply mem_foldl_relax_of_mem
        exact mem_dependentsAt_relax.2 (Or.inr ⟨rfl, htarget, hsource, hdependent⟩)
      · have hinputs : (graph.relax first).inputs = graph.inputs :=
          inputs_eq_of_frame_eq frame_relax
        apply ih hrest
        · rwa [hinputs]
        · rwa [hinputs]
        · exact hdependent.imp_right fun h => mem_dependentsAt_relax.2 (Or.inl h)

theorem mem_pass_of_edge {source : Text} (hedge : graph.Edge source path)
    (hdependent : dependent = source ∨ dependent ∈ graph.dependentsAt source) :
    dependent ∈ graph.pass.dependentsAt path := by
  have hlisted : (source, path) ∈ graph.edges := (edge_iff_mem_edges.1 hedge).1
  exact mem_foldl_relax_of_edge hlisted hedge.source_mem hedge.target_mem hdependent

/-- A pass stays inside every family that holds the dependents and takes over along edges. -/
theorem pass_le_of_takesOver {family : Text → Text → Prop}
    (hfamily : graph.TakesOver family)
    (hle : ∀ path, ∀ dependent ∈ graph.dependentsAt path, family path dependent) :
    ∀ path, ∀ dependent ∈ graph.pass.dependentsAt path, family path dependent := by
  suffices hfold :
      ∀ (edges : List (Text × Text)) (current : Graph),
        (∀ edge ∈ edges, edge ∈ graph.edges) → current.inputs = graph.inputs →
        (∀ path, ∀ dependent ∈ current.dependentsAt path, family path dependent) →
        ∀ path, ∀ dependent ∈ (edges.foldl relax current).dependentsAt path,
          family path dependent from
    hfold graph.edges graph (fun _ h => h) rfl hle
  intro edges
  induction edges with
  | nil => exact fun _ _ _ hcurrent => hcurrent
  | cons edge rest ih =>
      intro current hedges hinputs hcurrent
      apply ih (current.relax edge) (fun other hother => hedges other (by simp [hother]))
        ((inputs_eq_of_frame_eq frame_relax).trans hinputs)
      intro path dependent hmem
      rcases mem_dependentsAt_relax.1 hmem with hmem | ⟨rfl, htarget, _, hdependent⟩
      · exact hcurrent path dependent hmem
      · have hedge : graph.Edge edge.1 edge.2 :=
          edge_iff_mem_edges.2 ⟨hedges edge (by simp), hinputs ▸ htarget⟩
        rcases hdependent with rfl | hmem
        · exact (hfamily _ _ hedge).1
        · exact (hfamily _ _ hedge).2 dependent (hcurrent edge.1 dependent hmem)

theorem dependentTotal_eq_sum :
    graph.dependentTotal = (graph.nodes.map fun node => node.dependents.size).sum := by
  unfold dependentTotal
  induction graph.nodes with
  | nil => rfl
  | cons node rest ih => simp [ih]

theorem pass_eq_self_of_total_eq (htotal : graph.pass.dependentTotal = graph.dependentTotal) :
    graph.pass = graph := by
  have hsubset (node : Node) (hnode : node ∈ graph.nodes) :
      ∀ path ∈ node.dependents, path ∈ graph.pass.dependentsAt node.input := by
    intro path hpath
    exact mem_pass_of_mem (dependentsAt_input hnode ▸ hpath)
  have hle (node : Node) (hnode : node ∈ graph.nodes) :
      node.dependents.size ≤ (graph.pass.dependentsAt node.input).size :=
    (List.subperm_of_subset node.dependents.nodup_toList (hsubset node hnode)).length_le
  have hsum :
      (graph.nodes.map fun node => (graph.pass.dependentsAt node.input).size).sum =
        (graph.nodes.map fun node => node.dependents.size).sum := by
    rw [dependentTotal_eq_sum, dependentTotal_eq_sum, nodes_eq_of_frame_eq frame_pass,
      List.map_map] at htotal
    exact htotal
  apply eq_of_frame_eq frame_pass
  intro path
  by_cases hpath : path ∈ graph.inputs
  · obtain ⟨node, hnode, rfl⟩ := mem_inputs.1 hpath
    rw [dependentsAt_input hnode]
    refine (PathSet.eq_of_subset_of_size_le (hsubset node hnode) ?_).symm
    by_contra hmore
    have hlt := List.sum_lt_sum _ _ hle ⟨node, hnode, not_le.1 hmore⟩
    exact hlt.ne' hsum
  · have hpass : path ∉ graph.pass.inputs := by
      rwa [inputs_eq_of_frame_eq frame_pass]
    simp [dependentsAt, get?_eq_none_iff.2 hpath, get?_eq_none_iff.2 hpass]

/-! ## All passes -/

theorem closeWithin_eq_iterate (passes : Nat) (graph : Graph) :
    closeWithin passes graph = pass^[passes] graph := by
  induction passes generalizing graph with
  | zero => rfl
  | succ passes ih =>
      rw [Function.iterate_succ_apply, closeWithin]
      split
      next htotal =>
        have hfixed := pass_eq_self_of_total_eq htotal
        rw [hfixed, Function.iterate_fixed hfixed]
      next => exact ih graph.pass

theorem frame_iterate_pass (passes : Nat) : (pass^[passes] graph).frame = graph.frame := by
  induction passes with
  | zero => rfl
  | succ passes ih => rw [Function.iterate_succ_apply', frame_pass, ih]

theorem mem_iterate_pass_of_mem (passes : Nat)
    (hmem : dependent ∈ graph.dependentsAt path) :
    dependent ∈ (pass^[passes] graph).dependentsAt path := by
  induction passes with
  | zero => exact hmem
  | succ passes ih =>
      rw [Function.iterate_succ_apply']
      exact mem_pass_of_mem ih

theorem mem_iterate_pass_of_reaches {passes : Nat} {source : Text}
    (hreach : graph.ReachesWithin passes source path)
    (hdependent : dependent = source ∨ dependent ∈ graph.dependentsAt source) :
    dependent ∈ (pass^[passes] graph).dependentsAt path := by
  induction passes generalizing path with
  | zero => exact hreach.elim
  | succ passes ih =>
      have hedges : (pass^[passes] graph).Edge = graph.Edge :=
        edge_eq_of_frame_eq (frame_iterate_pass passes)
      rw [Function.iterate_succ_apply']
      rcases hreach with hedge | ⟨middle, hmiddle, hedge⟩
      · exact mem_pass_of_edge (hedges ▸ hedge)
          (hdependent.imp_right (mem_iterate_pass_of_mem passes))
      · exact mem_pass_of_edge (hedges ▸ hedge) (Or.inr (ih hmiddle))

theorem iterate_pass_le_of_takesOver {family : Text → Text → Prop} (passes : Nat)
    (hfamily : graph.TakesOver family)
    (hle : ∀ path, ∀ dependent ∈ graph.dependentsAt path, family path dependent) :
    ∀ path, ∀ dependent ∈ (pass^[passes] graph).dependentsAt path,
      family path dependent := by
  induction passes with
  | zero => exact hle
  | succ passes ih =>
      rw [Function.iterate_succ_apply']
      apply pass_le_of_takesOver _ ih
      unfold TakesOver
      rwa [edge_eq_of_frame_eq (frame_iterate_pass passes)]

/-- What has to be at a node: its first dependents, the nodes from which it is reached, and the
first dependents of those. -/
def Carried (graph : Graph) (path dependent : Text) : Prop :=
  dependent ∈ graph.dependentsAt path ∨
    ∃ source, Relation.TransGen graph.Edge source path ∧
      (dependent = source ∨ dependent ∈ graph.dependentsAt source)

theorem carried_takesOver (graph : Graph) : graph.TakesOver graph.Carried := by
  intro source target hedge
  refine ⟨Or.inr ⟨source, .single hedge, Or.inl rfl⟩, ?_⟩
  rintro path (hmem | ⟨first, hfirst, hpath⟩)
  · exact Or.inr ⟨source, .single hedge, Or.inr hmem⟩
  · exact Or.inr ⟨first, hfirst.tail hedge, hpath⟩

theorem mem_iterate_pass_iff {passes : Nat} (hpasses : graph.size ≤ passes) :
    dependent ∈ (pass^[passes] graph).dependentsAt path ↔ graph.Carried path dependent := by
  constructor
  · exact iterate_pass_le_of_takesOver passes graph.carried_takesOver
      (fun _ _ hmem => Or.inl hmem) path dependent
  · rintro (hmem | ⟨source, hsource, hdependent⟩)
    · exact mem_iterate_pass_of_mem passes hmem
    · obtain ⟨more, rfl⟩ := Nat.exists_eq_add_of_le' hpasses
      rw [Function.iterate_add_apply]
      exact mem_iterate_pass_of_mem more
        (mem_iterate_pass_of_reaches (reachesWithin_size_of_transGen hsource) hdependent)

theorem frame_close : graph.close.frame = graph.frame := by
  rw [close, closeWithin_eq_iterate, frame_iterate_pass]

theorem inputs_close : graph.close.inputs = graph.inputs :=
  inputs_eq_of_frame_eq frame_close

/-- A node of the closed graph is one of the graph with further dependents. -/
theorem exists_of_mem_nodes_close {node : Node} (hnode : node ∈ graph.close.nodes) :
    ∃ old ∈ graph.nodes, ∃ dependents, { old with dependents } = node := by
  rw [nodes_eq_of_frame_eq frame_close] at hnode
  obtain ⟨old, hold, heq⟩ := List.mem_map.1 hnode
  exact ⟨old, hold, _, heq⟩

theorem edge_close : graph.close.Edge = graph.Edge :=
  edge_eq_of_frame_eq frame_close

theorem mem_dependentsAt_close :
    dependent ∈ graph.close.dependentsAt path ↔ graph.Carried path dependent := by
  rw [close, closeWithin_eq_iterate]
  exact mem_iterate_pass_iff (Nat.le_succ _)

end Rebuild.Graph
