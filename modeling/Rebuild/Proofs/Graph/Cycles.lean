import Rebuild.Proofs.Graph.Insertion
import Rebuild.Proofs.Order.Sorted

/-!
# Cycles

With exact dependents a node is its own dependent exactly when it is on a cycle, so the list of
cyclic paths that ends an insertion holds the nodes on cycles and no others.  A further insertion
keeps every path, and therefore every cycle.
-/

namespace Rebuild.Graph

def IsCircular (graph : Graph) : Prop :=
  ∃ path, graph.OnCycle path

variable {graph : Graph} {path : Text}

theorem mem_cycles : path ∈ graph.cycles ↔ path ∈ graph.dependentsAt path := by
  unfold cycles Order.sortTexts
  rw [Order.mem_sortBy, List.mem_map]
  constructor
  · rintro ⟨node, hnode, rfl⟩
    obtain ⟨hnode, hself⟩ := List.mem_filter.1 hnode
    rw [dependentsAt_input hnode]
    simpa using hself
  · intro hself
    obtain ⟨node, hnode, rfl⟩ := mem_inputs.1 (mem_inputs_of_mem_dependentsAt hself)
    rw [dependentsAt_input hnode] at hself
    exact ⟨node, List.mem_filter.2 ⟨hnode, by simpa using hself⟩, rfl⟩

theorem increasing_cycles (graph : Graph) : graph.cycles.Pairwise (· < ·) := by
  apply Order.increasing_sortTexts
  exact graph.nodup_inputs.sublist (List.filter_sublist.map Node.input)

theorem not_isCircular_empty : ¬empty.IsCircular := by
  rintro ⟨path, hcycle⟩
  have hmem := source_mem_of_transGen hcycle
  exact List.not_mem_nil hmem

theorem Exact.mem_cycles_iff (hexact : graph.Exact) :
    path ∈ graph.cycles ↔ graph.OnCycle path := by
  rw [mem_cycles]
  exact hexact path path

theorem Exact.cycles_eq_nil_iff (hexact : graph.Exact) :
    graph.cycles = [] ↔ ¬graph.IsCircular := by
  rw [List.eq_nil_iff_forall_not_mem, IsCircular, not_exists]
  exact forall_congr' fun path => not_congr hexact.mem_cycles_iff

section Insert

variable {σ ε : Type} {sources : Sources σ ε} {here : Location} {scope : Option Text}
  {depth : Nat} {text : Text} {state : σ} {paths : List Text}

theorem cycles_insert
    (hverdict : (graph.insert sources here scope depth text state).verdict = .ok paths) :
    (graph.insert sources here scope depth text state).graph.cycles = paths :=
  (Insertion.eq_none_of_verdict hverdict).2

/-- An insertion that returns leads wherever the graph has led before. -/
theorem transGen_insert
    (hverdict : (graph.insert sources here scope depth text state).verdict = .ok paths)
    {source target : Text} (hpath : Relation.TransGen graph.Edge source target) :
    Relation.TransGen (graph.insert sources here scope depth text state).graph.Edge
      source target := by
  rw [(insert_eq_close hverdict).2, edge_close]
  exact (Insertion.visit_extends sources here scope depth text (.start graph state)).transGen
    hpath

end Insert

end Rebuild.Graph
