import Rebuild.Proofs.Graph.Chains
import Rebuild.Proofs.Graph.Line
import Rebuild.Proofs.Graph.Precedence
import Mathlib.Order.Preorder.Chain

/-!
# Counts are numbers of ordered sets

In a graph that insertions leave, failed ones included, the dependents of a dependent are
dependents, and without cycles no path is a dependent of itself.  So dependents are ordered, the
members of a chain above a path are dependents of the path in falling order, and a chain is settled
by the set of its members.  The count of a node is the number of its sets of dependents that are not
empty and of which any two members are comparable: between the number of its dependents and that of
all their sets but the empty one, which is reached when the dependents stand in a line.
-/

namespace Rebuild.Graph

variable {graph : Graph} {path dependent : Text} {chain : List Text}

/-! ## The order of dependents -/

theorem Grown.isTrans (hgraph : graph.Grown) : IsTrans Text graph.IsDependent where
  trans _ _ _ hfirst hsecond := hgraph.transitiveDependents _ _ hsecond _ hfirst

theorem Grown.isStrictOrder (hgraph : graph.Grown) (hgood : ¬graph.IsCircular) :
    IsStrictOrder Text graph.IsDependent where
  toIrrefl := ⟨fun path hself => hgraph.sound.layered hgood path (.single hself)⟩
  toIsTrans := hgraph.isTrans

theorem Sound.addsTo_iff (hsound : graph.Sound) :
    graph.AddsTo dependent path ↔ graph.IsDependent dependent path := by
  refine ⟨AddsTo.isDependent, fun hdependent => mem_dependentsOf.2 ⟨hdependent, ?_⟩⟩
  exact source_mem_of_transGen (hsound path dependent hdependent)

/-! ## Chains and their members -/

/-- Sets of dependents of the path, not empty, of which any two members are comparable. -/
def OrderedSets (graph : Graph) (path : Text) : Set (Finset Text) :=
  {members | members.Nonempty ∧ (∀ member ∈ members, graph.IsDependent member path) ∧
    IsChain graph.IsDependent (members : Set Text)}

section Ordered

variable [IsStrictOrder Text graph.IsDependent]

theorem isChainAbove_iff_pairwise (hsound : graph.Sound) :
    graph.IsChainAbove path chain ↔
      chain ≠ [] ∧ (∀ member ∈ chain, graph.IsDependent member path) ∧
        chain.Pairwise fun below above => graph.IsDependent above below := by
  have htrans : IsTrans Text fun below above => graph.IsDependent above below :=
    ⟨fun _ _ _ hfirst hsecond => trans_of graph.IsDependent hsecond hfirst⟩
  unfold IsChainAbove
  simp only [hsound.addsTo_iff]
  rw [List.isChain_iff_pairwise, List.pairwise_cons]

theorem nodup_of_pairwise
    (hchain : chain.Pairwise fun below above => graph.IsDependent above below) :
    chain.Nodup := by
  refine hchain.imp ?_
  rintro below _ habove rfl
  exact irrefl_of graph.IsDependent below habove

/-- Two chains with the same members are one chain. -/
theorem injOn_toFinset (hsound : graph.Sound) :
    Set.InjOn List.toFinset {chain | graph.IsChainAbove path chain} := by
  intro first hfirst second hsecond hmembers
  obtain ⟨-, -, hfirst⟩ := (isChainAbove_iff_pairwise hsound).1 hfirst
  obtain ⟨-, -, hsecond⟩ := (isChainAbove_iff_pairwise hsound).1 hsecond
  have hperm : first.Perm second :=
    List.perm_of_nodup_nodup_toFinset_eq (nodup_of_pairwise hfirst) (nodup_of_pairwise hsecond)
      hmembers
  refine hperm.eq_of_pairwise (fun below above _ _ habove hbelow => ?_) hfirst hsecond
  exact (asymm_of graph.IsDependent habove hbelow).elim

theorem layered_of_isStrictOrder : graph.Layered := by
  intro path hcycle
  rw [Relation.transGen_eq_self] at hcycle
  exact irrefl_of graph.IsDependent path hcycle

theorem rank_lt_of_isDependent (hsound : graph.Sound)
    (hdependent : graph.IsDependent dependent path) : graph.rank dependent < graph.rank path :=
  (layered_of_isStrictOrder.above path).rank_lt (hsound.addsTo_iff.2 hdependent)

/-- The members of an ordered set stand in a chain: those with more nodes above them first. -/
theorem exists_chain (hsound : graph.Sound) {members : Finset Text}
    (hmembers : members ∈ graph.OrderedSets path) :
    ∃ chain, graph.IsChainAbove path chain ∧ chain.toFinset = members := by
  obtain ⟨hne, hdependents, hordered⟩ := hmembers
  let before (first second : Text) : Bool := decide (graph.rank second ≤ graph.rank first)
  have hperm := Order.perm_sortBy before members.toList
  have hmem {member : Text} : member ∈ Order.sortBy before members.toList ↔ member ∈ members := by
    rw [hperm.mem_iff, Finset.mem_toList]
  have hsorted : (Order.sortBy before members.toList).Pairwise fun first second =>
      graph.rank second ≤ graph.rank first := by
    refine (Order.pairwise_sortBy ?_ ?_ members.toList).imp of_decide_eq_true
    · intro first second
      simpa [before] using Nat.le_total (graph.rank second) (graph.rank first)
    · intro first second third hfirst hsecond
      simp only [decide_eq_true_eq] at hfirst hsecond ⊢
      exact hsecond.trans hfirst
  have hdistinct := hperm.nodup_iff.2 members.nodup_toList
  refine ⟨Order.sortBy before members.toList, ?_, ?_⟩
  · obtain ⟨member, hmember⟩ := hne
    refine (isChainAbove_iff_pairwise hsound).2 ⟨List.ne_nil_of_mem (hmem.2 hmember),
      fun member hmember => hdependents member (hmem.1 hmember), ?_⟩
    refine (hsorted.and hdistinct).imp_of_mem fun {below above} hbelow habove ⟨hrank, hne⟩ => ?_
    refine (hordered (hmem.1 hbelow) (hmem.1 habove) hne).resolve_left fun hdependent => ?_
    exact absurd (rank_lt_of_isDependent hsound hdependent) (not_lt.2 hrank)
  · ext member
    rw [List.mem_toFinset, hmem]

theorem toFinset_mem_orderedSets (hsound : graph.Sound) (hchain : graph.IsChainAbove path chain) :
    chain.toFinset ∈ graph.OrderedSets path := by
  obtain ⟨hne, hdependents, hpairwise⟩ := (isChainAbove_iff_pairwise hsound).1 hchain
  refine ⟨(List.toFinset_nonempty_iff chain).2 hne, fun member hmember => ?_, ?_⟩
  · exact hdependents member (List.mem_toFinset.1 hmember)
  · have hcomparable : chain.Pairwise fun first second =>
        graph.IsDependent first second ∨ graph.IsDependent second first :=
      hpairwise.imp .inr
    have hsymm : Std.Symm fun first second =>
        graph.IsDependent first second ∨ graph.IsDependent second first := ⟨fun _ _ => Or.symm⟩
    rw [List.coe_toFinset]
    exact fun first hfirst second hsecond hne => hcomparable.forall hfirst hsecond hne

theorem encard_orderedSets (hsound : graph.Sound) :
    (graph.OrderedSets path).encard = graph.weight path := by
  have himage : List.toFinset '' {chain | graph.IsChainAbove path chain} =
      graph.OrderedSets path := by
    ext members
    constructor
    · rintro ⟨chain, hchain, rfl⟩
      exact toFinset_mem_orderedSets hsound hchain
    · exact exists_chain hsound
  rw [← himage, (injOn_toFinset hsound).encard_image,
    (layered_of_isStrictOrder.above path).encard_chains]

end Ordered

/-! ## The bounds of a count -/

/-- All sets of dependents of a path but the empty one. -/
def setsAbove (graph : Graph) (path : Text) : Finset (Finset Text) :=
  (graph.dependentsAt path).toList.toFinset.powerset.erase ∅

theorem mem_setsAbove_iff {members : Finset Text} :
    members ∈ graph.setsAbove path ↔
      members.Nonempty ∧ ∀ member ∈ members, graph.IsDependent member path := by
  rw [setsAbove, Finset.mem_erase, Finset.mem_powerset, Finset.nonempty_iff_ne_empty]
  simp [Finset.subset_iff, IsDependent, PathSet.mem_def]

theorem card_toFinset_dependentsAt (graph : Graph) (path : Text) :
    (graph.dependentsAt path).toList.toFinset.card = (graph.dependentsAt path).size :=
  List.toFinset_card_of_nodup (graph.dependentsAt path).nodup_toList

theorem card_setsAbove (graph : Graph) (path : Text) :
    (graph.setsAbove path).card = 2 ^ (graph.dependentsAt path).size - 1 := by
  rw [setsAbove, Finset.card_erase_of_mem (Finset.empty_mem_powerset _), Finset.card_powerset,
    card_toFinset_dependentsAt]

/-- All sets are ordered if the set of all dependents is. -/
theorem forall_setsAbove_iff :
    (∀ members ∈ graph.setsAbove path, IsChain graph.IsDependent (members : Set Text)) ↔
      IsChain graph.IsDependent {dependent | graph.IsDependent dependent path} := by
  constructor
  · intro hall first hfirst second hsecond hne
    have hpair : ({first, second} : Finset Text) ∈ graph.setsAbove path := by
      rw [mem_setsAbove_iff]
      refine ⟨Finset.insert_nonempty _ _, fun member hmember => ?_⟩
      rcases Finset.mem_insert.1 hmember with rfl | hmember
      · exact hfirst
      · exact Finset.mem_singleton.1 hmember ▸ hsecond
    exact hall _ hpair (by simp) (by simp) hne
  · intro hordered members hmembers
    exact hordered.mono fun member hmember => (mem_setsAbove_iff.1 hmembers).2 member hmember

theorem bounds_of_encard {count : Nat} (hcount : (graph.OrderedSets path).encard = count) :
    (graph.dependentsAt path).size ≤ count ∧
      count ≤ 2 ^ (graph.dependentsAt path).size - 1 ∧
      (count = 2 ^ (graph.dependentsAt path).size - 1 ↔
        IsChain graph.IsDependent {dependent | graph.IsDependent dependent path}) := by
  classical
  have hsets : graph.OrderedSets path =
      ((graph.setsAbove path).filter fun members : Finset Text =>
        IsChain graph.IsDependent (members : Set Text) : Finset (Finset Text)) := by
    ext members
    rw [Finset.coe_filter, Set.mem_ofPred_eq, mem_setsAbove_iff, and_assoc]
    rfl
  rw [hsets, Set.encard_coe_eq_coe_finsetCard, Nat.cast_inj] at hcount
  rw [← hcount, ← card_setsAbove]
  refine ⟨?_, Finset.card_filter_le _ _, ?_⟩
  · -- one member is comparable to itself
    rw [← card_toFinset_dependentsAt]
    refine Finset.card_le_card_of_injOn (fun member => ({member} : Finset Text))
      (fun member hmember => ?_) Finset.singleton_injective.injOn
    refine Finset.mem_filter.2 ⟨mem_setsAbove_iff.2 ⟨Finset.singleton_nonempty _, ?_⟩, ?_⟩
    · intro other hother
      rw [Finset.mem_singleton.1 hother]
      exact List.mem_toFinset.1 hmember
    · rw [Finset.coe_singleton]
      exact IsChain.singleton
  · rw [Finset.card_filter_eq_iff, forall_setsAbove_iff]

theorem Grown.exists_count (hgraph : graph.Grown) (hgood : ¬graph.IsCircular) {node : Node}
    (hnode : node ∈ graph.nodes) :
    ∃ count, graph.dependentCounts.lookup node.input = some count ∧
      {members : Finset Text | members.Nonempty ∧
        (∀ member ∈ members, member ∈ node.dependents) ∧
        IsChain graph.IsDependent (members : Set Text)}.encard = count ∧
      node.dependents.size ≤ count ∧ count ≤ 2 ^ node.dependents.size - 1 ∧
      (count = 2 ^ node.dependents.size - 1 ↔
        IsChain graph.IsDependent {dependent | dependent ∈ node.dependents}) := by
  have hstrict := hgraph.isStrictOrder hgood
  have hdependent (member : Text) :
      graph.IsDependent member node.input ↔ member ∈ node.dependents := by
    rw [IsDependent, dependentsAt_input hnode]
  have hcount : (graph.OrderedSets node.input).encard = graph.weight node.input :=
    encard_orderedSets hgraph.sound
  have hbounds := bounds_of_encard hcount
  simp only [hdependent, dependentsAt_input hnode] at hbounds
  simp only [OrderedSets, hdependent] at hcount
  exact ⟨_, (layered_of_isStrictOrder.above node.input).lookup_eq_weight (input_mem_inputs hnode),
    hcount, hbounds⟩

theorem exists_node_line (size : Nat) :
    ∃ node ∈ (line (size + 1)).nodes, node.input = lineFile 0 ∧ node.dependents.size = size ∧
      IsChain (line (size + 1)).IsDependent {dependent | dependent ∈ node.dependents} := by
  have hmem : lineFile 0 ∈ (line (size + 1)).inputs :=
    (mem_inputs_of_frame (line_inserted (size + 1)).2).2 (Nat.succ_pos size)
  obtain ⟨node, hnode, hinput⟩ := mem_inputs.1 hmem
  have hdependents : node.dependents = (line (size + 1)).dependentsAt (lineFile 0) := by
    rw [← hinput, dependentsAt_input hnode]
  refine ⟨node, hnode, hinput, ?_, ?_⟩
  · rw [hdependents, size_dependentsAt_line]
  · rw [hdependents]
    exact fun first hfirst second hsecond hne => comparable_line hfirst hsecond hne

/-- In every graph without cycles that insertions leave, being a dependent is a strict order, and
the count of a node is the number of its sets of dependents that are not empty and are totally
ordered by it.  So it lies between the number of dependents and that of all their sets but the empty
one, which it reaches exactly when the dependents are totally ordered; and that happens with any
number of dependents, so no number bounds the counts. -/
theorem counts_are_numbers_of_ordered_sets :
    (∀ graph : Graph, graph.Grown → ¬graph.IsCircular →
      IsStrictOrder Text graph.IsDependent ∧
        ∀ node ∈ graph.nodes, ∃ count,
          graph.dependentCounts.lookup node.input = some count ∧
          {members : Finset Text | members.Nonempty ∧
            (∀ member ∈ members, member ∈ node.dependents) ∧
            IsChain graph.IsDependent (members : Set Text)}.encard = count ∧
          node.dependents.size ≤ count ∧ count ≤ 2 ^ node.dependents.size - 1 ∧
          (count = 2 ^ node.dependents.size - 1 ↔
            IsChain graph.IsDependent {dependent | dependent ∈ node.dependents})) ∧
      ∀ size, ∃ graph : Graph, graph.Inserted ∧ ¬graph.IsCircular ∧
        ∃ node ∈ graph.nodes, node.dependents.size = size ∧
          graph.dependentCounts.lookup node.input = some (2 ^ size - 1) := by
  constructor
  · intro graph hgraph hgood
    exact ⟨hgraph.isStrictOrder hgood, fun node hnode => hgraph.exists_count hgood hnode⟩
  · intro size
    obtain ⟨node, hnode, -, hsize, hchain⟩ := exists_node_line size
    have hinserted := (line_inserted (size + 1)).1
    obtain ⟨count, hlookup, -, -, -, hmost⟩ :=
      hinserted.grown.exists_count (not_isCircular_line _) hnode
    refine ⟨line (size + 1), hinserted, not_isCircular_line _, node, hnode, hsize, ?_⟩
    rw [hlookup, hmost.2 hchain, hsize]

/-- With 64 dependents in a line the count is the greatest number of 64 binary digits. -/
theorem counts_are_numbers_of_ordered_sets_line :
    (line 65).Grown ∧ ¬(line 65).IsCircular ∧ ∃ node ∈ (line 65).nodes,
      node.dependents.size = 64 ∧
        (line 65).dependentCounts.lookup node.input = some 18446744073709551615 := by
  have hgrown := (line_inserted 65).1.grown
  have hgood := not_isCircular_line 65
  obtain ⟨node, hnode, -, hsize, hchain⟩ := exists_node_line 64
  obtain ⟨count, hlookup, -, -, -, hmost⟩ :=
    (counts_are_numbers_of_ordered_sets.1 (line 65) hgrown hgood).2 node hnode
  refine ⟨hgrown, hgood, node, hnode, hsize, ?_⟩
  rw [hlookup, hmost.2 hchain, hsize]
  norm_num

end Rebuild.Graph
