import Rebuild.Proofs.Graph.Nodes

/-!
# Paths along recorded modules

An edge leads from a node to another node that is recorded for one of its modules, and a path is a
chain of one or more edges.  What is on a path depends on the inputs and the modules of the nodes
alone, so a change of dependents, marks or outputs keeps every path.

A path longer than the number of nodes repeats itself: the nodes reached from one node in at most
`k` steps grow with `k` until they are settled, and once settled they stay so, which happens after
as many steps as there are nodes at the latest.
-/

namespace Rebuild.Graph

/-- A module of the node at `source` is recorded at `target`, and there is a node. -/
def Edge (graph : Graph) (source target : Text) : Prop :=
  (∃ node ∈ graph.nodes, node.input = source ∧ target ∈ node.modules.map Prod.snd) ∧
    target ∈ graph.inputs

/-- A node from which a path leads back to itself. -/
def OnCycle (graph : Graph) (path : Text) : Prop :=
  Relation.TransGen graph.Edge path path

theorem Edge.source_mem {graph : Graph} {source target : Text}
    (hedge : graph.Edge source target) : source ∈ graph.inputs := by
  obtain ⟨⟨node, hnode, rfl, _⟩, _⟩ := hedge
  exact input_mem_inputs hnode

theorem Edge.target_mem {graph : Graph} {source target : Text}
    (hedge : graph.Edge source target) : target ∈ graph.inputs :=
  hedge.2

theorem source_mem_of_transGen {graph : Graph} {source target : Text}
    (hpath : Relation.TransGen graph.Edge source target) : source ∈ graph.inputs := by
  induction hpath with
  | single hedge => exact hedge.source_mem
  | tail _ _ ih => exact ih

theorem edge_iff_mem_edges {graph : Graph} {source target : Text} :
    graph.Edge source target ↔
      (source, target) ∈ graph.edges ∧ target ∈ graph.inputs := by
  unfold Edge edges
  simp only [List.mem_flatMap, List.mem_map]
  refine and_congr_left fun _ => ⟨?_, ?_⟩
  · rintro ⟨node, hnode, rfl, pair, hpair, rfl⟩
    exact ⟨node, hnode, pair, hpair, rfl⟩
  · rintro ⟨node, hnode, pair, hpair, heq⟩
    obtain ⟨rfl, rfl⟩ := Prod.mk.inj heq
    exact ⟨node, hnode, rfl, pair, hpair, rfl⟩

/-! ## Paths of bounded length -/

def ReachesWithin (graph : Graph) : (steps : Nat) → (source target : Text) → Prop
  | 0, _, _ => False
  | steps + 1, source, target =>
    graph.Edge source target ∨
      ∃ middle, graph.ReachesWithin steps source middle ∧ graph.Edge middle target

def SettledWithin (graph : Graph) (source : Text) (steps : Nat) : Prop :=
  ∀ target, graph.ReachesWithin (steps + 1) source target →
    graph.ReachesWithin steps source target

theorem ReachesWithin.succ {graph : Graph} {steps : Nat} {source target : Text}
    (hreach : graph.ReachesWithin steps source target) :
    graph.ReachesWithin (steps + 1) source target := by
  induction steps generalizing target with
  | zero => exact hreach.elim
  | succ steps ih =>
      rcases hreach with hedge | ⟨middle, hmiddle, hedge⟩
      · exact Or.inl hedge
      · exact Or.inr ⟨middle, ih hmiddle, hedge⟩

theorem ReachesWithin.target_mem {graph : Graph} {steps : Nat} {source target : Text}
    (hreach : graph.ReachesWithin steps source target) : target ∈ graph.inputs := by
  cases steps with
  | zero => exact hreach.elim
  | succ steps =>
      rcases hreach with hedge | ⟨_, _, hedge⟩
      · exact hedge.target_mem
      · exact hedge.target_mem

theorem SettledWithin.succ {graph : Graph} {source : Text} {steps : Nat}
    (hsettled : graph.SettledWithin source steps) :
    graph.SettledWithin source (steps + 1) := by
  intro target hreach
  rcases hreach with hedge | ⟨middle, hmiddle, hedge⟩
  · exact Or.inl hedge
  · exact Or.inr ⟨middle, hsettled middle hmiddle, hedge⟩

section Bound

attribute [local instance] Classical.propDecidable

/-- The nodes reached from `source` by at most `steps` edges. -/
noncomputable def reachedWithin (graph : Graph) (source : Text) (steps : Nat) :
    Finset Text :=
  graph.inputs.toFinset.filter (graph.ReachesWithin steps source)

theorem mem_reachedWithin {graph : Graph} {source target : Text} {steps : Nat} :
    target ∈ graph.reachedWithin source steps ↔
      graph.ReachesWithin steps source target := by
  unfold reachedWithin
  rw [Finset.mem_filter, List.mem_toFinset]
  exact ⟨fun h => h.2, fun h => ⟨h.target_mem, h⟩⟩

theorem card_reachedWithin_le (graph : Graph) (source : Text) (steps : Nat) :
    (graph.reachedWithin source steps).card ≤ graph.size := by
  calc
    (graph.reachedWithin source steps).card ≤ graph.inputs.toFinset.card :=
      Finset.card_filter_le _ _
    _ ≤ graph.inputs.length := List.toFinset_card_le _
    _ = graph.size := graph.length_inputs

/-- While the reached nodes are not settled, every step reaches one more. -/
theorem lt_card_reachedWithin_of_not_settled {graph : Graph} {source : Text} {steps : Nat}
    (hnot : ¬graph.SettledWithin source steps) :
    steps < (graph.reachedWithin source (steps + 1)).card := by
  induction steps with
  | zero =>
      obtain ⟨target, htarget⟩ := not_forall.1 hnot
      rw [Finset.card_pos]
      exact ⟨target, mem_reachedWithin.2 (Classical.not_imp.1 htarget).1⟩
  | succ steps ih =>
      have hbefore := ih fun hsettled => hnot hsettled.succ
      have hgrow :
          graph.reachedWithin source (steps + 1) ⊂
            graph.reachedWithin source (steps + 1 + 1) := by
        rw [Finset.ssubset_iff_of_subset]
        · obtain ⟨target, htarget⟩ := not_forall.1 hnot
          obtain ⟨hreach, hnew⟩ := Classical.not_imp.1 htarget
          exact ⟨target, mem_reachedWithin.2 hreach, fun h => hnew (mem_reachedWithin.1 h)⟩
        · intro target htarget
          exact mem_reachedWithin.2 (mem_reachedWithin.1 htarget).succ
      have hcard := Finset.card_lt_card hgrow
      omega

theorem settledWithin_size (graph : Graph) (source : Text) :
    graph.SettledWithin source graph.size := by
  by_contra hnot
  have hlt := lt_card_reachedWithin_of_not_settled hnot
  have hle := graph.card_reachedWithin_le source (graph.size + 1)
  omega

end Bound

/-- Every path can be shortened to at most as many edges as there are nodes. -/
theorem reachesWithin_size_of_transGen {graph : Graph} {source target : Text}
    (hpath : Relation.TransGen graph.Edge source target) :
    graph.ReachesWithin graph.size source target := by
  induction hpath with
  | single hedge => exact graph.settledWithin_size source _ (Or.inl hedge)
  | tail _ hedge ih => exact graph.settledWithin_size source _ (Or.inr ⟨_, ih, hedge⟩)

end Rebuild.Graph
