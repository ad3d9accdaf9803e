import Rebuild.Graph.Count
import Rebuild.Proofs.Graph.Spread

/-!
# The order of nodes

The order holds every node once, and it is read off dependents alone, so marking does not change it.
-/

namespace Rebuild

namespace Graph

variable {graph : Graph}

/-- The paths of all nodes in their order. -/
theorem map_input_ordered (graph : Graph) :
    graph.ordered.map Node.input =
      Order.sortBy (precedes graph.dependentCounts) graph.inputs :=
  Order.map_sortBy _ Node.input graph.nodes

theorem perm_inputs_ordered (graph : Graph) :
    (graph.ordered.map Node.input).Perm graph.inputs := by
  rw [map_input_ordered]
  exact Order.perm_sortBy _ _

theorem dependentsOf_eq_filter (graph : Graph) (path : Text) :
    graph.dependentsOf path = (graph.dependentsAt path).toList.filter graph.has := by
  unfold dependentsOf dependentsAt
  cases graph.get? path with
  | none => rfl
  | some node => rfl

theorem countWithin_congr {first second : Graph}
    (hdependents : first.dependentsOf = second.dependentsOf) (levels : Nat)
    (opened : List Text) (counts : Counts) (path : Text) :
    first.countWithin levels opened counts path =
      second.countWithin levels opened counts path := by
  induction levels generalizing opened counts path with
  | zero => rfl
  | succ levels ih =>
      simp only [countWithin, hdependents, ih]

theorem dependentCounts_eq_of_unmarked_eq {first second : Graph}
    (hunmarked : first.unmarked = second.unmarked) :
    first.dependentCounts = second.dependentCounts := by
  have hinputs := inputs_eq_of_unmarked_eq hunmarked
  have hhas : first.has = second.has := by
    funext path
    rw [Bool.eq_iff_iff, has_eq_true_iff, has_eq_true_iff, hinputs]
  have hdependents : first.dependentsOf = second.dependentsOf := by
    funext path
    rw [dependentsOf_eq_filter, dependentsOf_eq_filter,
      dependentsAt_eq_of_unmarked_eq hunmarked, hhas]
  have hsize : first.size = second.size := by
    rw [← length_inputs, ← length_inputs, hinputs]
  unfold dependentCounts
  simp only [hinputs, hsize, countWithin_congr hdependents]

theorem inputs_ordered_eq_of_unmarked_eq {first second : Graph}
    (hunmarked : first.unmarked = second.unmarked) :
    first.ordered.map Node.input = second.ordered.map Node.input := by
  rw [map_input_ordered, map_input_ordered, inputs_eq_of_unmarked_eq hunmarked,
    dependentCounts_eq_of_unmarked_eq hunmarked]

end Graph

end Rebuild
