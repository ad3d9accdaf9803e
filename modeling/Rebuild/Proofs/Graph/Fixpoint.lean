import Rebuild.Proofs.Graph.Closure

/-!
# The loop that closes the dependents

The loop goes on as long as a step of a pass makes a set of dependents larger.  Sets only grow, so a
pass without such a step leaves the graph as it was, and so do all that would follow.  A pass more
than there are nodes is enough for that, since by then everything has been carried along the
shortest path it can take.  What the loop ends in is the least family of sets that holds the first
dependents and takes over along every edge, and for that the order of nodes and modules is of no
importance.
-/

namespace Rebuild.Graph

variable {graph other final : Graph} {path dependent : Text} {passes : Nat}

/-! ## Growing sets -/

/-- Whether one of the steps along the edges, which are made one after the other, makes the set of
its target larger. -/
def growsAlong : List (Text × Text) → Graph → Bool
  | [], _ => false
  | edge :: rest, graph =>
    ((graph.relax edge).dependentsAt edge.2).size != (graph.dependentsAt edge.2).size ||
      growsAlong rest (graph.relax edge)

/-- Whether a pass makes a set larger. -/
def grows (graph : Graph) : Bool :=
  growsAlong graph.edges graph

/-- The loop makes the given number of passes, the last of them without making a set larger. -/
inductive LoopsTo : (passes : Nat) → Graph → Graph → Prop
  | settled {graph : Graph} (hsettled : graph.grows = false) : LoopsTo 1 graph graph.pass
  | again {graph final : Graph} {passes : Nat} (hgrows : graph.grows = true)
      (hrest : LoopsTo passes graph.pass final) : LoopsTo (passes + 1) graph final

theorem relax_eq_self_of_size_eq {edge : Text × Text}
    (hsize : ((graph.relax edge).dependentsAt edge.2).size = (graph.dependentsAt edge.2).size) :
    graph.relax edge = graph := by
  apply eq_of_frame_eq frame_relax
  intro path
  by_cases hpath : path = edge.2
  · subst hpath
    exact (PathSet.eq_of_subset_of_size_le
      (fun _ hmem => mem_dependentsAt_relax.2 (Or.inl hmem)) hsize.le).symm
  · exact PathSet.ext_mem fun dependent => by simp [mem_dependentsAt_relax, hpath]

/-- What is the same after some steps has been the same after the first of them. -/
theorem relax_eq_self_of_foldl_eq {edge : Text × Text} {rest : List (Text × Text)}
    (hsame : rest.foldl relax (graph.relax edge) = graph) : graph.relax edge = graph := by
  apply eq_of_frame_eq frame_relax
  intro path
  refine PathSet.ext_mem fun dependent => ⟨fun hmem => ?_, fun hmem => ?_⟩
  · have hlast : dependent ∈ (rest.foldl relax (graph.relax edge)).dependentsAt path :=
      mem_foldl_relax_of_mem hmem
    rwa [hsame] at hlast
  · exact mem_dependentsAt_relax.2 (Or.inl hmem)

/-- Steps along which no set grows are those that change nothing. -/
theorem growsAlong_eq_false_iff {edges : List (Text × Text)} :
    growsAlong edges graph = false ↔ edges.foldl relax graph = graph := by
  induction edges with
  | nil => simp [growsAlong]
  | cons edge rest ih =>
      rw [growsAlong, Bool.or_eq_false_iff, bne_eq_false_iff_eq, List.foldl_cons]
      constructor
      · rintro ⟨hsize, hrest⟩
        have hfirst := relax_eq_self_of_size_eq hsize
        rw [hfirst] at hrest ⊢
        exact ih.1 hrest
      · intro hsame
        have hfirst := relax_eq_self_of_foldl_eq hsame
        rw [hfirst] at hsame ⊢
        exact ⟨rfl, ih.2 hsame⟩

theorem grows_eq_false_iff : graph.grows = false ↔ graph.pass = graph :=
  growsAlong_eq_false_iff

/-! ## The end of the loop -/

theorem close_eq_iterate_pass (hpasses : graph.size ≤ passes) :
    graph.close = pass^[passes] graph := by
  apply eq_of_frame_eq (frame_close.trans (frame_iterate_pass passes).symm)
  intro path
  refine PathSet.ext_mem fun dependent => ?_
  rw [mem_dependentsAt_close, mem_iterate_pass_iff hpasses]

theorem close_of_pass_eq_self (hfixed : graph.pass = graph) : graph.close = graph := by
  rw [close_eq_iterate_pass (le_refl _), Function.iterate_fixed hfixed]

theorem size_pass (graph : Graph) : graph.pass.size = graph.size := by
  rw [← length_inputs, inputs_eq_of_frame_eq frame_pass, length_inputs]

theorem close_pass (graph : Graph) : graph.pass.close = graph.close := by
  rw [close_eq_iterate_pass (size_pass graph).le, ← Function.iterate_succ_apply,
    ← close_eq_iterate_pass (Nat.le_succ _)]

theorem pass_close (graph : Graph) : graph.close.pass = graph.close := by
  conv_lhs => rw [close_eq_iterate_pass (le_refl graph.size)]
  rw [← Function.iterate_succ_apply' pass, ← close_eq_iterate_pass (Nat.le_succ _)]

theorem LoopsTo.eq_close (hloop : graph.LoopsTo passes final) : final = graph.close := by
  induction hloop with
  | settled hsettled =>
      have hfixed := grows_eq_false_iff.1 hsettled
      rw [hfixed, close_of_pass_eq_self hfixed]
  | @again graph _ _ _ _ ih => exact ih.trans (close_pass graph)

theorem LoopsTo.passes_unique {made : Nat} (hloop : graph.LoopsTo passes final)
    (hother : graph.LoopsTo made other) : made = passes := by
  induction hloop generalizing made with
  | settled hsettled =>
      cases hother with
      | settled => rfl
      | again hgrows => exact (Bool.false_ne_true (hsettled.symm.trans hgrows)).elim
  | again hgrows _ ih =>
      cases hother with
      | settled hsettled => exact (Bool.false_ne_true (hsettled.symm.trans hgrows)).elim
      | again _ hrest => exact congrArg Nat.succ (ih hrest)

/-- When no set is larger after one more pass than after the given number, the loop has come to its
end by then. -/
theorem exists_loopsTo (hsettled : (pass^[passes] graph).grows = false) :
    ∃ made ≤ passes + 1, ∃ final, graph.LoopsTo made final := by
  induction passes generalizing graph with
  | zero => exact ⟨1, le_refl 1, _, .settled hsettled⟩
  | succ passes ih =>
      cases hgrows : graph.grows with
      | false => exact ⟨1, Nat.le_add_left 1 _, _, .settled hgrows⟩
      | true =>
          obtain ⟨made, hmade, final, hloop⟩ := ih hsettled
          exact ⟨made + 1, Nat.succ_le_succ hmade, final, .again hgrows hloop⟩

theorem exists_loopsTo_close (graph : Graph) :
    ∃ passes ≤ graph.size + 1, graph.LoopsTo passes graph.close := by
  have hsettled : (pass^[graph.size] graph).grows = false := by
    rw [← close_eq_iterate_pass (le_refl _), grows_eq_false_iff, pass_close]
  obtain ⟨passes, hpasses, final, hloop⟩ := exists_loopsTo hsettled
  exact ⟨passes, hpasses, hloop.eq_close ▸ hloop⟩

/-! ## The least family -/

/-- The least family of sets that holds the dependents of the graph and takes over along every
edge. -/
structure IsLeastFamily (graph : Graph) (family : Text → Text → Prop) : Prop where
  holds : ∀ path, ∀ dependent ∈ graph.dependentsAt path, family path dependent
  takesOver : graph.TakesOver family
  least : ∀ other : Text → Text → Prop,
    (∀ path, ∀ dependent ∈ graph.dependentsAt path, other path dependent) →
      graph.TakesOver other → ∀ path dependent, family path dependent → other path dependent

theorem isLeastFamily_close (graph : Graph) :
    graph.IsLeastFamily fun path dependent => dependent ∈ graph.close.dependentsAt path where
  holds := fun _ _ hmem => mem_dependentsAt_close.2 (Or.inl hmem)
  takesOver := by
    intro source target hedge
    simp only [mem_dependentsAt_close]
    exact graph.carried_takesOver source target hedge
  least := by
    intro other hholds htakes path dependent hmem
    rw [close_eq_iterate_pass (le_refl _)] at hmem
    exact iterate_pass_le_of_takesOver _ htakes hholds path dependent hmem

/-! ## Other orders -/

/-- What the closing has to do with, whatever the order of the nodes and of the modules of each. -/
def unordered (graph : Graph) : Multiset (Text × Multiset (Text × Text) × PathSet) :=
  graph.nodes.map fun node => (node.input, (node.modules : Multiset (Text × Text)),
    node.dependents)

theorem mem_unordered {modules : Multiset (Text × Text)} {dependents : PathSet} :
    (path, modules, dependents) ∈ graph.unordered ↔
      ∃ node ∈ graph.nodes, node.input = path ∧ (node.modules : Multiset _) = modules ∧
        node.dependents = dependents := by
  simp [unordered]

theorem mem_inputs_iff_unordered :
    path ∈ graph.inputs ↔ ∃ modules dependents, (path, modules, dependents) ∈ graph.unordered := by
  rw [mem_inputs]
  constructor
  · rintro ⟨node, hnode, hinput⟩
    exact ⟨_, _, mem_unordered.2 ⟨node, hnode, hinput, rfl, rfl⟩⟩
  · rintro ⟨modules, dependents, hmem⟩
    obtain ⟨node, hnode, hinput, -⟩ := mem_unordered.1 hmem
    exact ⟨node, hnode, hinput⟩

theorem edge_iff_unordered {source target : Text} :
    graph.Edge source target ↔
      (∃ modules dependents, (source, modules, dependents) ∈ graph.unordered ∧
        ∃ reference, (reference, target) ∈ modules) ∧ target ∈ graph.inputs := by
  refine and_congr_left fun _ => ?_
  constructor
  · rintro ⟨node, hnode, hinput, hmodule⟩
    obtain ⟨pair, hpair, rfl⟩ := List.mem_map.1 hmodule
    exact ⟨_, _, mem_unordered.2 ⟨node, hnode, hinput, rfl, rfl⟩, pair.1, hpair⟩
  · rintro ⟨modules, dependents, hmem, reference, hreference⟩
    obtain ⟨node, hnode, hinput, rfl, -⟩ := mem_unordered.1 hmem
    exact ⟨node, hnode, hinput, List.mem_map.2 ⟨_, hreference, rfl⟩⟩

theorem mem_dependentsAt_iff_unordered :
    dependent ∈ graph.dependentsAt path ↔
      ∃ modules dependents, (path, modules, dependents) ∈ graph.unordered ∧
        dependent ∈ dependents := by
  constructor
  · intro hmem
    obtain ⟨node, hnode, rfl⟩ := mem_inputs.1 (mem_inputs_of_mem_dependentsAt hmem)
    rw [dependentsAt_input hnode] at hmem
    exact ⟨_, _, mem_unordered.2 ⟨node, hnode, rfl, rfl, rfl⟩, hmem⟩
  · rintro ⟨modules, dependents, hmem, hdependent⟩
    obtain ⟨node, hnode, rfl, -, rfl⟩ := mem_unordered.1 hmem
    rwa [dependentsAt_input hnode]

theorem unordered_close (graph : Graph) :
    graph.close.unordered = graph.unordered.map fun entry =>
      (entry.1, entry.2.1, graph.close.dependentsAt entry.1) := by
  rw [unordered, nodes_eq_of_frame_eq frame_close, unordered, Multiset.map_coe, List.map_map,
    List.map_map]
  rfl

theorem dependentsAt_close_eq_of_unordered_eq (hsame : other.unordered = graph.unordered)
    (path : Text) : other.close.dependentsAt path = graph.close.dependentsAt path := by
  have hinputs : ∀ path, path ∈ other.inputs ↔ path ∈ graph.inputs := fun path => by
    rw [mem_inputs_iff_unordered, mem_inputs_iff_unordered, hsame]
  have hedge : other.Edge = graph.Edge := by
    funext source target
    rw [eq_iff_iff, edge_iff_unordered, edge_iff_unordered, hsame, hinputs]
  have hdependents : ∀ path dependent,
      dependent ∈ other.dependentsAt path ↔ dependent ∈ graph.dependentsAt path :=
    fun path dependent => by
      rw [mem_dependentsAt_iff_unordered, mem_dependentsAt_iff_unordered, hsame]
  refine PathSet.ext_mem fun dependent => ?_
  simp only [mem_dependentsAt_close, Carried, hedge, hdependents]

theorem unordered_close_eq (hsame : other.unordered = graph.unordered) :
    other.close.unordered = graph.close.unordered := by
  rw [unordered_close, unordered_close, hsame]
  simp only [dependentsAt_close_eq_of_unordered_eq hsame]

/-- From any start the loop comes to its end, within one pass more than there are nodes.  It ends in
the least family of sets that holds the first dependents and takes over along the edges, which is
the same for every order of nodes and modules, and closing the graph again changes nothing. -/
theorem closing_exact (graph : Graph) :
    (∃ passes, graph.LoopsTo passes graph.close) ∧
      (∀ passes final, graph.LoopsTo passes final →
        passes ≤ graph.size + 1 ∧ final = graph.close) ∧
      graph.IsLeastFamily (fun path dependent => dependent ∈ graph.close.dependentsAt path) ∧
      (∀ other : Graph, other.unordered = graph.unordered →
        other.close.unordered = graph.close.unordered) ∧
      graph.close.close = graph.close := by
  obtain ⟨bound, hbound, hloop⟩ := graph.exists_loopsTo_close
  refine ⟨⟨bound, hloop⟩, fun passes final hrun => ⟨?_, hrun.eq_close⟩, graph.isLeastFamily_close,
    fun _ => unordered_close_eq, close_of_pass_eq_self graph.pass_close⟩
  rwa [hloop.passes_unique hrun]

/-- A circle of three files, one of which requires itself and a file that is not there, and a
dependent that no node stands for. -/
def tangled : Graph where
  nodes :=
    [⟨"a.tl", none, ["b"], [("b", "b.tl")], ∅, .unset⟩,
      ⟨"b.tl", none, ["c"], [("c", "c.tl")], .singleton "x.tl", .unset⟩,
      ⟨"c.tl", none, ["c", "gone", "a"], [("c", "c.tl"), ("gone", "gone.tl"), ("a", "a.tl")], ∅,
        .unset⟩]
  distinct := by decide

def tangledOtherwise : Graph where
  nodes :=
    [⟨"c.tl", none, ["c", "gone", "a"], [("a", "a.tl"), ("c", "c.tl"), ("gone", "gone.tl")], ∅,
        .unset⟩,
      ⟨"b.tl", none, ["c"], [("c", "c.tl")], .singleton "x.tl", .unset⟩,
      ⟨"a.tl", none, ["b"], [("b", "b.tl")], ∅, .unset⟩]
  distinct := by decide

theorem closing_exact_tangled :
    tangledOtherwise.unordered = tangled.unordered ∧
      (∀ path ∈ tangled.inputs,
        (tangled.close.dependentsAt path).toList = (["a.tl", "b.tl", "c.tl", "x.tl"] : List Text)) ∧
      (∃ passes ≤ 4, tangled.LoopsTo passes tangled.close) ∧
      tangledOtherwise.close.unordered = tangled.close.unordered := by
  have hsame : tangledOtherwise.unordered = tangled.unordered := by decide +kernel
  have hdependents : ∀ path ∈ tangled.inputs,
      (tangled.close.dependentsAt path).toList =
        (["a.tl", "b.tl", "c.tl", "x.tl"] : List Text) := by
    decide +kernel
  obtain ⟨⟨passes, hloop⟩, hruns, -, horder, -⟩ := closing_exact tangled
  exact ⟨hsame, hdependents, ⟨passes, (hruns passes _ hloop).1, hloop⟩,
    horder tangledOtherwise hsame⟩

end Rebuild.Graph
