import Rebuild.Proofs.Graph.Counting
import Rebuild.Proofs.Graph.Cycles

/-!
# Weights

The weight of a path is its dependent count written as an equation: one and the weight of the
dependent, summed over all dependents that are nodes.  Above a path from which no cycle of
dependents is reached, a dependent has fewer nodes above it than the node it depends on, so there
the equation has one solution.  The search for the counts finds it, whatever cycles the graph has
elsewhere: the open paths are below the path that is searched, so meeting one of them again closes a
cycle, and the counts found earlier are weights as well.  So the order in which the search goes
through the nodes does not matter.
-/

namespace Rebuild.Graph

variable {graph : Graph} {path dependent : Text}

def IsDependent (graph : Graph) (dependent path : Text) : Prop :=
  dependent ∈ graph.dependentsAt path

/-- No path comes back to itself along dependents. -/
def Layered (graph : Graph) : Prop :=
  ∀ path, ¬Relation.TransGen graph.IsDependent path path

/-- Dependents need not be complete for this, as long as each of them is the start of a path. -/
theorem Sound.layered (hsound : graph.Sound) (hgood : ¬graph.IsCircular) : graph.Layered :=
  fun path hcycle =>
    hgood ⟨path, Relation.TransGen.closed
      (fun dependent path hmem => hsound path dependent hmem) path path hcycle⟩

/-- The dependent is a node, which adds to the count of the path. -/
def AddsTo (graph : Graph) (dependent path : Text) : Prop :=
  dependent ∈ graph.dependentsOf path

theorem AddsTo.isDependent (hadds : graph.AddsTo dependent path) :
    graph.IsDependent dependent path :=
  (mem_dependentsOf.1 hadds).1

/-- No cycle of dependents is reached by going up from the path. -/
def LayeredAbove (graph : Graph) (path : Text) : Prop :=
  ∀ other, Relation.ReflTransGen graph.AddsTo other path →
    ¬Relation.TransGen graph.AddsTo other other

theorem Layered.above (hlayered : graph.Layered) (path : Text) : graph.LayeredAbove path :=
  fun other _ hcycle =>
    hlayered other
      (Relation.TransGen.mono (fun _ _ hadds => AddsTo.isDependent hadds) other other hcycle)

theorem LayeredAbove.of_addsTo (hlayered : graph.LayeredAbove path)
    (hadds : graph.AddsTo dependent path) : graph.LayeredAbove dependent :=
  fun other hother => hlayered other (hother.tail hadds)

open Classical in
/-- The number of nodes above a path, which bounds the length of the ways up from it. -/
noncomputable def rank (graph : Graph) (path : Text) : Nat :=
  (graph.inputs.toFinset.filter fun other => Relation.TransGen graph.AddsTo other path).card

open Classical in
theorem rank_le_size (graph : Graph) (path : Text) : graph.rank path ≤ graph.size := by
  rw [← length_inputs]
  exact (Finset.card_filter_le _ _).trans graph.inputs.toFinset_card_le

open Classical in
theorem LayeredAbove.rank_lt (hlayered : graph.LayeredAbove path)
    (hadds : graph.AddsTo dependent path) : graph.rank dependent < graph.rank path := by
  have hinput := (mem_dependentsOf.1 hadds).2
  apply Finset.card_lt_card
  rw [Finset.ssubset_iff_of_subset]
  · -- the dependent itself is above the path but not above itself
    refine ⟨dependent, ?_, fun hself =>
      hlayered dependent (.single hadds) (Finset.mem_filter.1 hself).2⟩
    exact Finset.mem_filter.2 ⟨List.mem_toFinset.2 hinput, .single hadds⟩
  · exact Finset.monotone_filter_right _ fun other _ habove => habove.tail hadds

/-! ## The equation of the weights -/

def weightWithin (graph : Graph) : (levels : Nat) → Text → Nat
  | 0, _ => 0
  | levels + 1, path =>
    ((graph.dependentsOf path).map fun dependent => 1 + graph.weightWithin levels dependent).sum

def weight (graph : Graph) (path : Text) : Nat :=
  graph.weightWithin (graph.size + 1) path

theorem LayeredAbove.weightWithin_eq (hlayered : graph.LayeredAbove path) (first second : Nat)
    (hfirst : graph.rank path < first) (hsecond : graph.rank path < second) :
    graph.weightWithin first path = graph.weightWithin second path := by
  induction first generalizing second path with
  | zero => omega
  | succ first ih =>
      obtain ⟨second, rfl⟩ : ∃ less, second = less + 1 := ⟨second - 1, by omega⟩
      unfold weightWithin
      congr 1
      apply List.map_congr_left
      intro dependent hdependent
      have hlt := hlayered.rank_lt hdependent
      rw [ih (hlayered.of_addsTo hdependent) second (by omega) (by omega)]

theorem LayeredAbove.weight_eq (hlayered : graph.LayeredAbove path) :
    graph.weight path =
      ((graph.dependentsOf path).map fun dependent => 1 + graph.weight dependent).sum := by
  rw [weight, weightWithin]
  congr 1
  apply List.map_congr_left
  intro dependent hdependent
  have hlt := hlayered.rank_lt hdependent
  have hle := graph.rank_le_size path
  rw [weight, (hlayered.of_addsTo hdependent).weightWithin_eq graph.size (graph.size + 1)
    (by omega) (by omega)]

theorem Layered.weight_lt (hlayered : graph.Layered)
    (hdependent : dependent ∈ graph.dependentsOf path) :
    graph.weight dependent < graph.weight path := by
  have hmem : 1 + graph.weight dependent ∈
      (graph.dependentsOf path).map fun dependent => 1 + graph.weight dependent :=
    List.mem_map_of_mem hdependent
  have hle := List.single_le_sum (fun _ _ => Nat.zero_le _) _ hmem
  rw [(hlayered.above path).weight_eq]
  omega

theorem weight_congr {first second : Graph}
    (hdependents : first.dependentsOf = second.dependentsOf) (hsize : first.size = second.size) :
    first.weight = second.weight := by
  have hwithin : ∀ levels path,
      first.weightWithin levels path = second.weightWithin levels path := by
    intro levels
    induction levels with
    | zero => exact fun _ => rfl
    | succ levels ih =>
        intro path
        simp only [weightWithin, hdependents, ih]
  funext path
  rw [weight, weight, hsize, hwithin]

/-! ## Counts are weights -/

/-- The counts found for paths above which there is no cycle are their weights. -/
def Counted (graph : Graph) (counts : Counts) : Prop :=
  ∀ path count, counts.lookup path = some count → graph.LayeredAbove path →
    count = graph.weight path

theorem Counted.append {counts : Counts} {count : Nat} (hcounted : graph.Counted counts)
    (hcount : graph.LayeredAbove path → count = graph.weight path) :
    graph.Counted (counts ++ [(path, count)]) := by
  intro other found hfound hlayered
  rw [List.lookup_append, Option.or_eq_some_iff] at hfound
  rcases hfound with hfound | ⟨_, hfound⟩
  · exact hcounted other found hfound hlayered
  · by_cases heq : other = path
    · subst heq
      simp only [List.lookup_cons_self, Option.some_inj] at hfound
      exact hfound.symm.trans (hcount hlayered)
    · simp [List.lookup_cons, beq_eq_false_iff_ne.2 heq] at hfound

/-- A run from below open paths only keeps the counts right.  It adds up weights if there is no
cycle above any of its paths. -/
theorem Tallies.counted_sum {opened paths : List Text} {before after : Counts × Nat}
    (hrun : graph.Tallies opened paths before after)
    (hopened : ∀ path ∈ paths, ∀ other ∈ opened, Relation.TransGen graph.AddsTo path other)
    (hcounted : graph.Counted before.1) :
    graph.Counted after.1 ∧
      ((∀ path ∈ paths, graph.LayeredAbove path) →
        after.2 = before.2 + (paths.map fun path => 1 + graph.weight path).sum) := by
  induction hrun with
  | done => exact ⟨hcounted, fun _ => rfl⟩
  | @known opened rest path counts total count after hcount _ ih =>
      obtain ⟨hafter, hsum⟩ :=
        ih (fun other hother => hopened other (List.mem_cons_of_mem path hother)) hcounted
      refine ⟨hafter, fun hlayered => ?_⟩
      obtain ⟨hpath, hrest⟩ := List.forall_mem_cons.1 hlayered
      rw [hsum hrest, hcounted path count hcount hpath, List.map_cons, List.sum_cons, Nat.add_assoc]
  | @reentered opened rest path counts total after _ hopen _ ih =>
      obtain ⟨hafter, _⟩ :=
        ih (fun other hother => hopened other (List.mem_cons_of_mem path hother)) hcounted
      refine ⟨hafter, fun hlayered => ?_⟩
      have hcycle := hopened path List.mem_cons_self path hopen
      exact (hlayered path List.mem_cons_self path .refl hcycle).elim
  | @counted opened rest path counts middle total count after _ _ _ _ ihOwn ih =>
      have habove : ∀ dependent ∈ graph.dependentsOf path, ∀ other ∈ path :: opened,
          Relation.TransGen graph.AddsTo dependent other := by
        intro dependent hdependent other hother
        rcases List.mem_cons.1 hother with rfl | hother
        · exact .single hdependent
        · exact .head hdependent (hopened path List.mem_cons_self other hother)
      obtain ⟨hmiddle, hown⟩ := ihOwn habove hcounted
      have hcount : graph.LayeredAbove path → count = graph.weight path := by
        intro hpath
        have hsum := hown fun dependent hdependent => hpath.of_addsTo hdependent
        rwa [← hpath.weight_eq, Nat.zero_add] at hsum
      obtain ⟨hafter, hsum⟩ :=
        ih (fun other hother => hopened other (List.mem_cons_of_mem path hother))
          (hmiddle.append hcount)
      refine ⟨hafter, fun hlayered => ?_⟩
      obtain ⟨hpath, hrest⟩ := List.forall_mem_cons.1 hlayered
      rw [hsum hrest, hcount hpath, List.map_cons, List.sum_cons, Nat.add_assoc]

/-- A node above which there is no cycle has its weight as count. -/
theorem LayeredAbove.lookup_eq_weight (hlayered : graph.LayeredAbove path)
    (hpath : path ∈ graph.inputs) :
    graph.dependentCounts.lookup path = some (graph.weight path) := by
  obtain ⟨total, hrun⟩ := graph.exists_tallies_dependentCounts
  obtain ⟨hcounted, _⟩ := hrun.counted_sum
    (fun _ _ _ hother => (List.not_mem_nil hother).elim) (fun _ _ hnone => by cases hnone)
  cases hlookup : graph.dependentCounts.lookup path with
  | none =>
      have hmem := graph.perm_inputs_dependentCounts.mem_iff.2 hpath
      exact (Counts.lookup_eq_none_iff.1 hlookup hmem).elim
  | some count => rw [hcounted path count hlookup hlayered]

/-- Every node has its weight as count, and nothing else has a count. -/
theorem Layered.lookup_dependentCounts (hlayered : graph.Layered) (path : Text) :
    graph.dependentCounts.lookup path =
      if path ∈ graph.inputs then some (graph.weight path) else none := by
  split
  next hpath => exact (hlayered.above path).lookup_eq_weight hpath
  next hpath =>
    rw [Counts.lookup_eq_none_iff, graph.perm_inputs_dependentCounts.mem_iff]
    exact hpath

theorem Layered.countIn_dependentCounts (hlayered : graph.Layered) (hpath : path ∈ graph.inputs) :
    countIn graph.dependentCounts path = graph.weight path := by
  rw [countIn, hlayered.lookup_dependentCounts, if_pos hpath, Option.getD_some]

end Rebuild.Graph
