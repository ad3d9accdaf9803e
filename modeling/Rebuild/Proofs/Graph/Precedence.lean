import Rebuild.Proofs.Graph.Weight

/-!
# Dependencies before dependents

The order of the nodes is a sort by count and path, not a search along modules.  It is an order of
dependencies all the same: in a closed graph without cycles the count of a node is more than that of
each of its dependents, so all of these stand behind it, in the list of all nodes and in every list
that leaves some of them out.
-/

namespace Rebuild.Graph

variable {graph : Graph} {counts : Counts}

/-- The first path has the greater count, or an equal one and a smaller text. -/
def StandsBefore (counts : Counts) (first second : Text) : Prop :=
  countIn counts second < countIn counts first ∨
    countIn counts first = countIn counts second ∧ first < second

theorem precedes_iff {first second : Text} :
    precedes counts first second = true ↔
      countIn counts second < countIn counts first ∨
        countIn counts first = countIn counts second ∧ first ≤ second := by
  simp [precedes]

theorem precedes_total (counts : Counts) (first second : Text) :
    precedes counts first second = true ∨ precedes counts second first = true := by
  rw [precedes_iff, precedes_iff]
  rcases Nat.lt_trichotomy (countIn counts first) (countIn counts second) with hlt | heq | hlt
  · exact Or.inr (Or.inl hlt)
  · rcases Text.le_total first second with hle | hle
    · exact Or.inl (Or.inr ⟨heq, hle⟩)
    · exact Or.inr (Or.inr ⟨heq.symm, hle⟩)
  · exact Or.inl (Or.inl hlt)

theorem precedes_trans {first second third : Text} (hfirst : precedes counts first second = true)
    (hsecond : precedes counts second third = true) : precedes counts first third = true := by
  rw [precedes_iff] at *
  rcases hfirst with hlt | ⟨heq, hle⟩
  · rcases hsecond with hless | ⟨hsame, _⟩
    · exact Or.inl (hless.trans hlt)
    · exact Or.inl (hsame ▸ hlt)
  · rcases hsecond with hless | ⟨hsame, hmore⟩
    · exact Or.inl (heq ▸ hless)
    · exact Or.inr ⟨heq.trans hsame, Text.le_trans hle hmore⟩

theorem perm_nodes_ordered (graph : Graph) : graph.ordered.Perm graph.nodes :=
  Order.perm_sortBy _ _

theorem pairwise_ordered (graph : Graph) :
    graph.ordered.Pairwise fun first second =>
      StandsBefore graph.dependentCounts first.input second.input := by
  have hsorted : graph.ordered.Pairwise fun first second =>
      precedes graph.dependentCounts first.input second.input = true := by
    let before (first second : Node) : Bool :=
      precedes graph.dependentCounts first.input second.input
    have htotal : ∀ first second, before first second = true ∨ before second first = true :=
      fun first second => precedes_total _ first.input second.input
    exact Order.pairwise_sortBy htotal (fun _ _ _ => precedes_trans) graph.nodes
  have hdistinct : (graph.ordered.map Node.input).Nodup :=
    graph.perm_inputs_ordered.nodup_iff.2 graph.nodup_inputs
  refine hsorted.imp₂ (fun first second hprecedes hne => ?_) (List.pairwise_map.1 hdistinct)
  rcases precedes_iff.1 hprecedes with hlt | ⟨heq, hle⟩
  · exact Or.inl hlt
  · exact Or.inr ⟨heq, Text.not_le.1 fun hge => hne (Text.le_antisymm hle hge)⟩

/-- In a sorted list of nodes a dependent of one of them stands behind it. -/
theorem Layered.mem_behind (hlayered : graph.Layered) {nodes before after : List Node}
    {node dependent : Node}
    (hsorted : nodes.Pairwise fun first second =>
      StandsBefore graph.dependentCounts first.input second.input)
    (hnodes : nodes = before ++ node :: after) (hnode : node.input ∈ graph.inputs)
    (hlisted : dependent ∈ nodes) (hinput : dependent.input ∈ graph.inputs)
    (hdependent : dependent.input ∈ graph.dependentsAt node.input) : dependent ∈ after := by
  have hweight := hlayered.weight_lt (mem_dependentsOf.2 ⟨hdependent, hinput⟩)
  rw [hnodes, List.mem_append, List.mem_cons] at hlisted
  rcases hlisted with hbefore | rfl | hafter
  · rw [hnodes, List.pairwise_append] at hsorted
    have hstands := hsorted.2.2 dependent hbefore node List.mem_cons_self
    rw [StandsBefore, hlayered.countIn_dependentCounts hnode,
      hlayered.countIn_dependentCounts hinput] at hstands
    omega
  · exact (lt_irrefl _ hweight).elim
  · exact hafter

/-- Every dependent of a node stands behind the node in the order of all nodes. -/
theorem Layered.mem_behind_ordered (hlayered : graph.Layered) {before after : List Node}
    {node : Node} (hordered : graph.ordered = before ++ node :: after) {dependent : Text}
    (hdependent : dependent ∈ node.dependents) (hinput : dependent ∈ graph.inputs) :
    dependent ∈ after.map Node.input := by
  have hlisted : ∀ other, other ∈ graph.ordered ↔ other ∈ graph.nodes := fun other =>
    graph.perm_nodes_ordered.mem_iff
  have hnode : node ∈ graph.nodes := by
    rw [← hlisted, hordered]
    exact List.mem_append_right before List.mem_cons_self
  obtain ⟨other, hother, rfl⟩ := mem_inputs.1 hinput
  have hbehind := hlayered.mem_behind graph.pairwise_ordered hordered (input_mem_inputs hnode)
    ((hlisted other).2 hother) hinput (by rwa [dependentsAt_input hnode])
  exact List.mem_map_of_mem hbehind

end Rebuild.Graph
