import Rebuild.Proofs.Graph.Confluence

/-!
# Counts are numbers of chains

A chain goes up from a path: its first member is a dependent of the path, and each further member is
a dependent of the one before it.  The chains with a bounded number of members are finitely many in
any graph, and their number satisfies the equation of the weights.  Above a path from which no cycle
is reached no member comes twice, so no chain is longer than there are nodes, and the count of the
path is the number of all its chains.
-/

namespace Rebuild.Graph

variable {graph : Graph} {path : Text} {levels : Nat} {chain : List Text}

/-- A sequence of nodes, not empty, that goes up from the path along dependents. -/
def IsChainAbove (graph : Graph) (path : Text) (chain : List Text) : Prop :=
  chain ≠ [] ∧ (path :: chain).IsChain fun below above => graph.AddsTo above below

theorem isChainAbove_cons_iff {dependent : Text} :
    graph.IsChainAbove path (dependent :: chain) ↔
      graph.AddsTo dependent path ∧ (chain = [] ∨ graph.IsChainAbove dependent chain) := by
  unfold IsChainAbove
  rw [List.isChain_cons_cons]
  cases chain with
  | nil => simp
  | cons next rest => simp

/-! ## Chains of bounded length -/

/-- The chains above a path that have no more members than levels. -/
def chainsWithin (graph : Graph) : (levels : Nat) → Text → List (List Text)
  | 0, _ => []
  | levels + 1, path =>
    (graph.dependentsOf path).flatMap fun dependent =>
      [dependent] :: (graph.chainsWithin levels dependent).map (dependent :: ·)

theorem length_chainsWithin (levels : Nat) (path : Text) :
    (graph.chainsWithin levels path).length = graph.weightWithin levels path := by
  induction levels generalizing path with
  | zero => rfl
  | succ levels ih =>
      rw [chainsWithin, weightWithin, List.length_flatMap]
      congr 1
      apply List.map_congr_left
      intro dependent _
      rw [List.length_cons, List.length_map, ih, Nat.add_comm]

theorem mem_chainsWithin_iff :
    chain ∈ graph.chainsWithin levels path ↔
      graph.IsChainAbove path chain ∧ chain.length ≤ levels := by
  induction levels generalizing path chain with
  | zero =>
      simp only [chainsWithin, List.not_mem_nil, Nat.le_zero, List.length_eq_zero_iff, false_iff]
      exact fun h => h.1.1 h.2
  | succ levels ih =>
      simp only [chainsWithin, List.mem_flatMap, List.mem_cons, List.mem_map, ih]
      cases chain with
      | nil => simp [IsChainAbove]
      | cons first rest =>
          rw [isChainAbove_cons_iff, List.length_cons, Nat.add_le_add_iff_right]
          constructor
          · rintro ⟨dependent, hadds, hsingle | ⟨more, ⟨hmore, hlength⟩, hcons⟩⟩
            · obtain ⟨rfl, rfl⟩ := List.cons.inj hsingle
              exact ⟨⟨hadds, Or.inl rfl⟩, Nat.zero_le _⟩
            · obtain ⟨rfl, rfl⟩ := List.cons.inj hcons
              exact ⟨⟨hadds, Or.inr hmore⟩, hlength⟩
          · rintro ⟨⟨hadds, rfl | hmore⟩, hlength⟩
            · exact ⟨first, hadds, Or.inl rfl⟩
            · exact ⟨first, hadds, Or.inr ⟨rest, ⟨hmore, hlength⟩, rfl⟩⟩

theorem nodup_dependentsOf (graph : Graph) (path : Text) : (graph.dependentsOf path).Nodup := by
  rw [dependentsOf_eq_filter]
  exact (graph.dependentsAt path).nodup_toList.filter _

theorem nodup_chainsWithin (levels : Nat) (path : Text) :
    (graph.chainsWithin levels path).Nodup := by
  induction levels generalizing path with
  | zero => exact List.nodup_nil
  | succ levels ih =>
      have hfirst : ∀ (dependent : Text) (chain : List Text),
          chain ∈ [dependent] :: (graph.chainsWithin levels dependent).map (dependent :: ·) →
            chain.head? = some dependent := by
        intro dependent chain hchain
        rcases List.mem_cons.1 hchain with rfl | hchain
        · rfl
        · obtain ⟨rest, _, rfl⟩ := List.mem_map.1 hchain
          rfl
      rw [chainsWithin, List.nodup_flatMap]
      refine ⟨fun dependent _ => ?_, ?_⟩
      · refine List.nodup_cons.2 ⟨fun hmem => ?_, (ih dependent).map (List.cons_injective)⟩
        obtain ⟨rest, hrest, heq⟩ := List.mem_map.1 hmem
        exact (mem_chainsWithin_iff.1 hrest).1.1 (List.cons.inj heq).2
      · refine (graph.nodup_dependentsOf path).imp fun hne => ?_
        rw [Function.onFun, List.disjoint_left]
        intro chain hchain hother
        exact hne (Option.some.inj ((hfirst _ chain hchain).symm.trans (hfirst _ chain hother)))

/-! ## Chains above a path without cycles -/

theorem layeredAbove_iff :
    graph.LayeredAbove path ↔
      ∀ dependent ∈ graph.dependentsOf path, graph.LayeredAbove dependent := by
  refine ⟨fun hlayered dependent hdependent => hlayered.of_addsTo hdependent, ?_⟩
  intro hall other hother hcycle
  rcases hother.cases_tail with rfl | ⟨dependent, hreach, hadds⟩
  · obtain ⟨dependent, hreach, hadds⟩ := Relation.TransGen.tail'_iff.1 hcycle
    exact hall dependent hadds _ hreach hcycle
  · exact hall dependent hadds other hreach hcycle

theorem LayeredAbove.length_le (hlayered : graph.LayeredAbove path)
    (hchain : graph.IsChainAbove path chain) : chain.length ≤ graph.size := by
  have habove : (path :: chain).Pairwise fun below above =>
      Relation.TransGen graph.AddsTo above below := by
    have hsteps : (path :: chain).IsChain fun below above =>
        Relation.TransGen graph.AddsTo above below :=
      hchain.2.imp fun _ _ hadds => .single hadds
    have htrans : IsTrans Text fun below above =>
        Relation.TransGen graph.AddsTo above below :=
      ⟨fun _ _ _ hfirst hsecond => hsecond.trans hfirst⟩
    exact hsteps.pairwise
  obtain ⟨hpath, hmembers⟩ := List.pairwise_cons.1 habove
  have hnodup : chain.Nodup := by
    refine hmembers.imp_of_mem fun hbelow _ hreach heq => ?_
    subst heq
    exact hlayered _ (hpath _ hbelow).to_reflTransGen hreach
  have hnodes : chain ⊆ graph.inputs := by
    intro member hmember
    obtain ⟨_, hadds, _⟩ := Relation.TransGen.head'_iff.1 (hpath member hmember)
    exact (mem_dependentsOf.1 hadds).2
  rw [← length_inputs]
  exact (hnodup.subperm hnodes).length_le

theorem LayeredAbove.encard_chains (hlayered : graph.LayeredAbove path) :
    {chain | graph.IsChainAbove path chain}.encard = graph.weight path := by
  have hset : {chain | graph.IsChainAbove path chain} =
      ((graph.chainsWithin (graph.size + 1) path).toFinset : Set (List Text)) := by
    ext chain
    rw [Set.mem_ofPred_eq, List.coe_toFinset, Set.mem_ofPred_eq, mem_chainsWithin_iff]
    exact ⟨fun hchain => ⟨hchain, (hlayered.length_le hchain).trans (Nat.le_succ _)⟩,
      fun hchain => hchain.1⟩
  rw [hset, Set.encard_coe_eq_coe_finsetCard,
    List.toFinset_card_of_nodup (nodup_chainsWithin _ path), length_chainsWithin, weight]

theorem LayeredAbove.of_perm {other : Graph} (hperm : other.nodes.Perm graph.nodes)
    (hlayered : graph.LayeredAbove path) : other.LayeredAbove path := by
  have hadds : other.AddsTo = graph.AddsTo := by
    funext dependent path
    rw [eq_iff_iff, AddsTo, AddsTo, mem_dependentsOf, mem_dependentsOf,
      dependentsAt_eq_of_perm hperm, mem_inputs_of_perm hperm]
  unfold LayeredAbove
  rwa [hadds]

/-- On every graph, whatever its dependents and cycles, the search without a bound on its depth ends
with the same counts, one for each node.  Above a node from which no cycle is reached the count is
the sum over the dependents that are nodes, it is the number of chains, and it does not depend on
the order of the nodes. -/
theorem counts_exact (graph : Graph) :
    (∃ total, ∀ after,
        graph.Tallies [] graph.inputs ([], 0) after ↔ after = (graph.dependentCounts, total)) ∧
      (graph.dependentCounts.map Prod.fst).Perm graph.inputs ∧
      ∀ path ∈ graph.inputs, graph.LayeredAbove path →
        ∃ count, graph.dependentCounts.lookup path = some count ∧
          count = ((graph.dependentsOf path).map fun dependent =>
            1 + countIn graph.dependentCounts dependent).sum ∧
          {chain | graph.IsChainAbove path chain}.encard = count ∧
          ∀ other : Graph, other.nodes.Perm graph.nodes →
            other.dependentCounts.lookup path = some count := by
  obtain ⟨total, hrun⟩ := graph.exists_tallies_dependentCounts
  refine ⟨⟨total, fun after => ⟨hrun.unique, fun heq => heq ▸ hrun⟩⟩,
    graph.perm_inputs_dependentCounts, ?_⟩
  intro path hpath hlayered
  refine ⟨graph.weight path, hlayered.lookup_eq_weight hpath, ?_, hlayered.encard_chains, ?_⟩
  · rw [hlayered.weight_eq]
    congr 1
    apply List.map_congr_left
    intro dependent hdependent
    rw [countIn, (hlayered.of_addsTo hdependent).lookup_eq_weight
      (mem_dependentsOf.1 hdependent).2, Option.getD_some]
  · intro other hperm
    rw [(hlayered.of_perm hperm).lookup_eq_weight ((mem_inputs_of_perm hperm).2 hpath),
      weight_eq_of_perm hperm]

/-- A diamond below a cycle, which the search enters first.  The dependents are not closed, and one
of them is no node. -/
def diamondBelowCycle : Graph where
  nodes :=
    [⟨"x.tl", none, [], [], .ofList ["d.tl", "y.tl"], .unset⟩,
      ⟨"y.tl", none, [], [], .ofList ["x.tl"], .unset⟩,
      ⟨"d.tl", none, [], [], .ofList ["b.tl", "c.tl", "gone.tl"], .unset⟩,
      ⟨"b.tl", none, [], [], .ofList ["a.tl"], .unset⟩,
      ⟨"c.tl", none, [], [], .ofList ["a.tl"], .unset⟩,
      ⟨"a.tl", none, [], [], ∅, .unset⟩]
  distinct := by decide

theorem layeredAbove_diamondBelowCycle : diamondBelowCycle.LayeredAbove "d.tl" := by
  have htop : diamondBelowCycle.LayeredAbove "a.tl" := by
    have hnone : diamondBelowCycle.dependentsOf "a.tl" = [] := by decide +kernel
    rw [layeredAbove_iff, hnone]
    exact fun _ hdependent => (List.not_mem_nil hdependent).elim
  have hmiddle : ∀ path ∈ (["b.tl", "c.tl"] : List Text), diamondBelowCycle.LayeredAbove path := by
    have hone : ∀ path ∈ (["b.tl", "c.tl"] : List Text),
        diamondBelowCycle.dependentsOf path = (["a.tl"] : List Text) := by
      decide +kernel
    intro path hpath
    rw [layeredAbove_iff, hone path hpath]
    exact List.forall_mem_singleton.2 htop
  have hbottom : diamondBelowCycle.dependentsOf "d.tl" = (["b.tl", "c.tl"] : List Text) := by
    decide +kernel
  rw [layeredAbove_iff, hbottom]
  exact hmiddle

theorem counts_exact_diamondBelowCycle :
    ("d.tl" : Text) ∈ diamondBelowCycle.inputs ∧ diamondBelowCycle.LayeredAbove "d.tl" ∧
      {chain | diamondBelowCycle.IsChainAbove "d.tl" chain}.encard = 4 := by
  have hmem : ("d.tl" : Text) ∈ diamondBelowCycle.inputs := by decide
  obtain ⟨count, hlookup, _, hchains, _⟩ :=
    (counts_exact diamondBelowCycle).2.2 "d.tl" hmem layeredAbove_diamondBelowCycle
  have hcount : diamondBelowCycle.dependentCounts.lookup ("d.tl" : Text) = some 4 := by
    decide +kernel
  obtain rfl := Option.some.inj (hcount.symm.trans hlookup)
  exact ⟨hmem, layeredAbove_diamondBelowCycle, hchains⟩

end Rebuild.Graph
