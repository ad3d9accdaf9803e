import Rebuild.Proofs.Graph.Contents
import Rebuild.Proofs.Graph.Marking
import Rebuild.Proofs.Graph.Precedence

/-!
# The order of insertions

With fixed answers the files of a graph are the least set that holds the roots and is closed under
modules, and whatever else a node holds is settled by its path and by these files: its references
and modules by the answers, its dependents by the edges.  So runs of insertions with the same roots,
in whatever order, number and spelling, end in graphs with the same nodes.  What is computed from a
graph without looking at the order of its nodes is then the same as well, and in a graph without
cycles this holds of the counts, since they are weights, and of the order that follows from them.
-/

namespace Rebuild

namespace Graph

variable {first second : Graph}

theorem perm_nodes_of_mem_iff (hnodes : ∀ node, node ∈ first.nodes ↔ node ∈ second.nodes) :
    first.nodes.Perm second.nodes :=
  (List.perm_ext_iff_of_nodup first.distinct.of_map second.distinct.of_map).2 hnodes

theorem mem_inputs_of_perm (hperm : first.nodes.Perm second.nodes) {path : Text} :
    path ∈ first.inputs ↔ path ∈ second.inputs :=
  (hperm.map Node.input).mem_iff

theorem dependentsAt_eq_of_perm (hperm : first.nodes.Perm second.nodes) :
    first.dependentsAt = second.dependentsAt := by
  funext path
  by_cases hpath : path ∈ first.inputs
  · obtain ⟨node, hnode, rfl⟩ := mem_inputs.1 hpath
    rw [dependentsAt_input hnode, dependentsAt_input (hperm.mem_iff.1 hnode)]
  · have hother : path ∉ second.inputs := fun h => hpath ((mem_inputs_of_perm hperm).2 h)
    simp [dependentsAt, get?_eq_none_iff.2 hpath, get?_eq_none_iff.2 hother]

theorem cycles_eq_of_perm (hperm : first.nodes.Perm second.nodes) :
    first.cycles = second.cycles := by
  have hsets : (⟨first.cycles, first.increasing_cycles⟩ : PathSet) =
      ⟨second.cycles, second.increasing_cycles⟩ := by
    apply PathSet.ext_mem
    intro path
    rw [PathSet.mem_def, PathSet.mem_def, mem_cycles, mem_cycles, dependentsAt_eq_of_perm hperm]
  exact congrArg PathSet.toList hsets

theorem weight_eq_of_perm (hperm : first.nodes.Perm second.nodes) :
    first.weight = second.weight := by
  have hhas : first.has = second.has := by
    funext path
    rw [Bool.eq_iff_iff, has_eq_true_iff, has_eq_true_iff, mem_inputs_of_perm hperm]
  apply weight_congr
  · funext path
    rw [dependentsOf_eq_filter, dependentsOf_eq_filter, dependentsAt_eq_of_perm hperm, hhas]
  · exact hperm.length_eq

theorem TransitiveDependents.of_perm (hperm : first.nodes.Perm second.nodes)
    (htransitive : first.TransitiveDependents) : second.TransitiveDependents := by
  unfold TransitiveDependents
  rwa [← dependentsAt_eq_of_perm hperm]

theorem Layered.of_perm (hperm : first.nodes.Perm second.nodes) (hlayered : first.Layered) :
    second.Layered := by
  unfold Layered IsDependent
  rwa [← dependentsAt_eq_of_perm hperm]

theorem Layered.lookup_dependentCounts_eq (hlayered : first.Layered)
    (hperm : first.nodes.Perm second.nodes) (path : Text) :
    first.dependentCounts.lookup path = second.dependentCounts.lookup path := by
  rw [hlayered.lookup_dependentCounts, (hlayered.of_perm hperm).lookup_dependentCounts,
    weight_eq_of_perm hperm]
  simp only [mem_inputs_of_perm hperm]

/-- A strict order leaves one list only for the same nodes. -/
theorem Layered.ordered_eq (hlayered : first.Layered) (hperm : first.nodes.Perm second.nodes) :
    first.ordered = second.ordered := by
  have hcounts : countIn first.dependentCounts = countIn second.dependentCounts := by
    funext path
    rw [countIn, hlayered.lookup_dependentCounts_eq hperm, countIn]
  have hfirst := first.pairwise_ordered
  have hsecond := second.pairwise_ordered
  unfold StandsBefore at hfirst hsecond
  rw [← hcounts] at hsecond
  have hnodes : first.ordered.Perm second.ordered :=
    first.perm_nodes_ordered.trans (hperm.trans second.perm_nodes_ordered.symm)
  refine hnodes.eq_of_pairwise (fun a b _ _ hab hba => ?_) hfirst hsecond
  rcases hab with hlt | ⟨heq, hlt⟩
  · rcases hba with hgt | ⟨hsame, _⟩ <;> omega
  · rcases hba with hgt | ⟨_, hgt⟩
    · omega
    · exact (Text.lt_asymm hlt hgt).elim

/-- The same requests leave the same marks on graphs with the same nodes. -/
theorem MarkedAs.markAt_eq {before other : Graph} {compiled checked : Text → Prop}
    (hperm : before.nodes.Perm other.nodes) (hfirst : first.unmarked = before.unmarked)
    (hfirstMarks : first.MarkedAs compiled checked) (hsecond : second.unmarked = other.unmarked)
    (hsecondMarks : second.MarkedAs compiled checked) :
    first.markAt = second.markAt := by
  have hinputs : ∀ path, path ∈ first.inputs ↔ path ∈ second.inputs := by
    intro path
    rw [inputs_eq_of_unmarked_eq hfirst, inputs_eq_of_unmarked_eq hsecond,
      mem_inputs_of_perm hperm]
  have hdue : first.Due = second.Due := by
    rw [due_eq_of_unmarked_eq hfirst, due_eq_of_unmarked_eq hsecond]
    funext targets path
    unfold Due
    simp only [mem_inputs_of_perm hperm, dependentsAt_eq_of_perm hperm]
  funext path
  by_cases hpath : path ∈ first.inputs
  · have hother := (hinputs path).1 hpath
    have hcompile := (hfirstMarks.compile_iff path hpath).trans
      (hsecondMarks.compile_iff path hother).symm
    have hunset := hfirstMarks.unset_iff path hpath
    rw [hdue, ← hsecondMarks.unset_iff path hother] at hunset
    obtain ⟨node, hnode, rfl⟩ := mem_inputs.1 hpath
    obtain ⟨twin, htwin, hinput⟩ := mem_inputs.1 hother
    unfold IsUnset at hunset
    rw [markAt_input hnode, ← hinput, markAt_input htwin] at hunset hcompile ⊢
    cases hmark : node.mark <;> cases htwinMark : twin.mark <;> simp_all
  · have hother : path ∉ second.inputs := fun h => hpath ((hinputs path).2 h)
    simp [markAt, get?_eq_none_iff.2 hpath, get?_eq_none_iff.2 hother]

/-- Marking by a test asks the same questions in the same order and leaves the same marks. -/
theorem run_each_eq_of_perm (hperm : first.nodes.Perm second.nodes) (hlayered : first.Layered)
    (htransitive : first.TransitiveDependents)
    (hfirst : ∀ node ∈ first.nodes, node.mark = .unset)
    (hsecond : ∀ node ∈ second.nodes, node.mark = .unset) (test : Text → Bool)
    (asked : List Text) :
    ((MarkStep.run first (.each test)).run asked).2 =
        ((MarkStep.run second (.each test)).run asked).2 ∧
      ((MarkStep.run first (.each test)).run asked).1.markAt =
        ((MarkStep.run second (.each test)).run asked).1.markAt := by
  have hordered := hlayered.ordered_eq hperm
  have hfirstMarks := MarkedAs.ofUnset htransitive hfirst
  have hsecondMarks := MarkedAs.ofUnset (htransitive.of_perm hperm) hsecond
  simp only [MarkStep.run, run_markEach, hordered, true_and]
  obtain ⟨hfirstUnmarked, hfirstAll⟩ :=
    hfirstMarks.afterCompileAll ((second.ordered.map Node.input).filter test)
  obtain ⟨hsecondUnmarked, hsecondAll⟩ :=
    hsecondMarks.afterCompileAll ((second.ordered.map Node.input).filter test)
  exact MarkedAs.markAt_eq hperm hfirstUnmarked hfirstAll hsecondUnmarked hsecondAll

end Graph

namespace Setting

variable {ε : Type} {setting : Setting ε} {roots firstRoots secondRoots : List Text}
  {graph first second : Graph}

theorem Built.inserted (hbuilt : setting.Built roots graph) : graph.Inserted := by
  induction hbuilt with
  | empty => exact .empty
  | insert _ _ depth text state hverdict ih => exact .insert ih _ _ _ depth text state hverdict

def SameRoots (firstRoots secondRoots : List Text) : Prop :=
  ∀ path, path ∈ firstRoots.map Path.canonical ↔ path ∈ secondRoots.map Path.canonical

theorem SameRoots.symm (hroots : SameRoots firstRoots secondRoots) :
    SameRoots secondRoots firstRoots :=
  fun path => (hroots path).symm

theorem Closed.of_sameRoots (hroots : SameRoots firstRoots secondRoots) {files : Set Text}
    (hclosed : setting.Closed firstRoots files) : setting.Closed secondRoots files where
  roots := by
    intro root hroot hadmissible
    obtain ⟨other, hother, heq⟩ :=
      List.mem_map.1 ((hroots (Path.canonical root)).2 (List.mem_map_of_mem hroot))
    rw [← heq] at hadmissible ⊢
    exact hclosed.roots other hother hadmissible
  modules := hclosed.modules

theorem Built.inputs_subset (hroots : SameRoots firstRoots secondRoots)
    (hfirst : setting.Built firstRoots first) (hsecond : setting.Built secondRoots second) :
    ∀ path ∈ first.inputs, path ∈ second.inputs :=
  hfirst.holds.needed {path | path ∈ second.inputs}
    (hsecond.holds.closed.of_sameRoots hroots.symm)

theorem Built.inputs_iff (hroots : SameRoots firstRoots secondRoots)
    (hfirst : setting.Built firstRoots first) (hsecond : setting.Built secondRoots second)
    (path : Text) : path ∈ first.inputs ↔ path ∈ second.inputs :=
  ⟨Built.inputs_subset hroots hfirst hsecond path,
    Built.inputs_subset hroots.symm hsecond hfirst path⟩

theorem Built.edge_iff (hbuilt : setting.Built roots graph) (source target : Text) :
    graph.Edge source target ↔
      source ∈ graph.inputs ∧ target ∈ graph.inputs ∧
        ∃ found, setting.Finds source found ∧ target = setting.key found := by
  have hdescribed := hbuilt.holds.described
  have hmodules : ∀ node ∈ graph.nodes,
      target ∈ node.modules.map Prod.snd ↔
        ∃ found, setting.Finds node.input found ∧ target = setting.key found := by
    intro node hnode
    have hrequires := (hdescribed node hnode).requires
    rw [(hdescribed node hnode).modules, List.mem_map]
    constructor
    · rintro ⟨⟨reference, path⟩, hmem, rfl⟩
      obtain ⟨hreference, found, hfound, rfl⟩ := mem_recorded_iff.1 hmem
      exact ⟨found, ⟨node.requires, hrequires, reference, hreference, hfound⟩, rfl⟩
    · rintro ⟨found, ⟨references, hparse, reference, hreference, hfound⟩, rfl⟩
      rw [hrequires] at hparse
      cases hparse
      exact ⟨(reference, setting.key found),
        mem_recorded_iff.2 ⟨hreference, found, hfound, rfl⟩, rfl⟩
  constructor
  · rintro ⟨⟨node, hnode, rfl, htarget⟩, hinput⟩
    exact ⟨Graph.input_mem_inputs hnode, hinput, (hmodules node hnode).1 htarget⟩
  · rintro ⟨hsource, hinput, hfound⟩
    obtain ⟨node, hnode, rfl⟩ := Graph.mem_inputs.1 hsource
    exact ⟨⟨node, hnode, rfl, (hmodules node hnode).2 hfound⟩, hinput⟩

theorem Built.mem_nodes_of_sameRoots (hroots : SameRoots firstRoots secondRoots)
    (hfirst : setting.Built firstRoots first) (hsecond : setting.Built secondRoots second)
    {node : Node} (hnode : node ∈ first.nodes) : node ∈ second.nodes := by
  have hinputs := Built.inputs_iff hroots hfirst hsecond
  have hedge : first.Edge = second.Edge := by
    funext source target
    rw [eq_iff_iff, hfirst.edge_iff, hsecond.edge_iff, hinputs, hinputs]
  obtain ⟨twin, htwin, hinput⟩ :=
    Graph.mem_inputs.1 ((hinputs node.input).1 (Graph.input_mem_inputs hnode))
  have hdescribed := hfirst.holds.described node hnode
  have htwinDescribed := hsecond.holds.described twin htwin
  have hrequires : node.requires = twin.requires := by
    have hparse := hdescribed.requires
    rw [← hinput, htwinDescribed.requires] at hparse
    exact (Scanned.refs.inj hparse).symm
  have hdependents : node.dependents = twin.dependents := by
    apply PathSet.ext_mem
    intro dependent
    rw [← Graph.dependentsAt_input hnode, ← Graph.dependentsAt_input htwin, hinput,
      hfirst.inserted.exact, hsecond.inserted.exact, hedge]
  have hsame : node = twin := by
    have hmodules := hdescribed.modules
    rw [hrequires, ← htwinDescribed.modules] at hmodules
    have houtput := hfirst.inserted.grown.output_none node hnode
    have hmark := hfirst.inserted.grown.mark_unset node hnode
    rw [← hsecond.inserted.grown.output_none twin htwin] at houtput
    rw [← hsecond.inserted.grown.mark_unset twin htwin] at hmark
    cases node
    cases twin
    simp_all
  exact hsame ▸ htwin

/-- The roots have been inserted, and the last insertion has reported the paths. -/
inductive Reported (setting : Setting ε) : List Text → Graph → List Text → Prop
  | last {σ : Type} {roots paths : List Text} {graph : Graph} {sources : Sources σ ε}
      (hbuilt : setting.Built roots graph) (hanswers : setting.Answers sources) (depth : Nat)
      (text : Text) (state : σ)
      (hverdict :
        (graph.insert sources setting.here setting.scope depth text state).verdict = .ok paths) :
      Reported setting (roots ++ [text])
        (graph.insert sources setting.here setting.scope depth text state).graph paths

theorem Reported.built {paths : List Text} (hreported : setting.Reported roots graph paths) :
    setting.Built roots graph ∧ graph.cycles = paths := by
  cases hreported with
  | last hbuilt hanswers depth text state hverdict =>
      exact ⟨.insert hbuilt hanswers depth text state hverdict, Graph.cycles_insert hverdict⟩

/-- Two runs with the same roots report the same and leave the same nodes; without cycles also the
counts, the order of the nodes, and what a test asks and marks are the same. -/
theorem Reported.order_irrelevant {firstPaths secondPaths : List Text}
    (hfirst : setting.Reported firstRoots first firstPaths)
    (hsecond : setting.Reported secondRoots second secondPaths)
    (hroots : ∀ path,
      path ∈ firstRoots.map Path.canonical ↔ path ∈ secondRoots.map Path.canonical) :
    firstPaths = secondPaths ∧ first.nodes.Perm second.nodes ∧
      (¬first.IsCircular →
        (∀ path, first.dependentCounts.lookup path = second.dependentCounts.lookup path) ∧
        first.ordered = second.ordered ∧
        ∀ test asked,
          ((MarkStep.run first (.each test)).run asked).2 =
              ((MarkStep.run second (.each test)).run asked).2 ∧
            ((MarkStep.run first (.each test)).run asked).1.markAt =
              ((MarkStep.run second (.each test)).run asked).1.markAt) := by
  obtain ⟨hfirstBuilt, rfl⟩ := hfirst.built
  obtain ⟨hsecondBuilt, rfl⟩ := hsecond.built
  have hperm : first.nodes.Perm second.nodes := by
    apply Graph.perm_nodes_of_mem_iff
    exact fun node =>
      ⟨Built.mem_nodes_of_sameRoots hroots hfirstBuilt hsecondBuilt,
        Built.mem_nodes_of_sameRoots (SameRoots.symm hroots) hsecondBuilt hfirstBuilt⟩
  refine ⟨Graph.cycles_eq_of_perm hperm, hperm, fun hgood => ?_⟩
  have hexact := hfirstBuilt.inserted.exact
  have hlayered := hexact.sound.layered hgood
  refine ⟨hlayered.lookup_dependentCounts_eq hperm, hlayered.ordered_eq hperm, ?_⟩
  exact Graph.run_each_eq_of_perm hperm hlayered hexact.transitiveDependents
    hfirstBuilt.inserted.grown.mark_unset hsecondBuilt.inserted.grown.mark_unset

/-! ## Two runs over one pair of files -/

/-- `a` requires `b`. -/
def pairTable : SourceTable :=
  ⟨[("a.tl", some ["b"]), ("b.tl", some [])], [("b", "b.tl")]⟩

def pair : Setting Empty :=
  pairTable.setting [] none

def insertInPair (graph : Graph) (text : Text) : Graph :=
  (graph.insert pairTable.sources [] none 2 text []).graph

theorem reported_insertInPair (hbuilt : pair.Built roots graph) (text : Text)
    (hstop :
      (Insertion.visit pairTable.sources [] none 2 text (.start graph [])).stop.isNone = true) :
    pair.Reported (roots ++ [text]) (insertInPair graph text)
      (insertInPair graph text).cycles :=
  .last hbuilt (pairTable.answers [] none) 2 text []
    (Graph.verdict_insert (Option.isNone_iff_eq_none.1 hstop))

def pairFromTop : Graph :=
  insertInPair (insertInPair .empty "a.tl") "b.tl"

def pairFromBottom : Graph :=
  insertInPair (insertInPair .empty "./b.tl") "x/../a.tl"

theorem reported_pairFromTop :
    pair.Reported ["a.tl", "b.tl"] pairFromTop pairFromTop.cycles := by
  have hfirst := reported_insertInPair .empty "a.tl" (by decide +kernel)
  exact reported_insertInPair hfirst.built.1 "b.tl" (by decide +kernel)

theorem reported_pairFromBottom :
    pair.Reported ["./b.tl", "x/../a.tl"] pairFromBottom pairFromBottom.cycles := by
  have hfirst := reported_insertInPair .empty "./b.tl" (by decide +kernel)
  exact reported_insertInPair hfirst.built.1 "x/../a.tl" (by decide +kernel)

theorem not_isCircular_pairFromTop : ¬pairFromTop.IsCircular := by
  apply reported_pairFromTop.built.1.inserted.exact.cycles_eq_nil_iff.1
  decide +kernel

theorem order_irrelevant_pair :
    pair.Reported ["a.tl", "b.tl"] pairFromTop pairFromTop.cycles ∧
      pair.Reported ["./b.tl", "x/../a.tl"] pairFromBottom pairFromBottom.cycles ∧
      pairFromTop.nodes.Perm pairFromBottom.nodes ∧
      pairFromTop.ordered = pairFromBottom.ordered := by
  have hroots : ∀ path,
      path ∈ (["a.tl", "b.tl"] : List Text).map Path.canonical ↔
        path ∈ (["./b.tl", "x/../a.tl"] : List Text).map Path.canonical := by
    have hfirst : (["a.tl", "b.tl"] : List Text).map Path.canonical =
        (["a.tl", "b.tl"] : List Text) := by
      decide +kernel
    have hsecond : (["./b.tl", "x/../a.tl"] : List Text).map Path.canonical =
        (["b.tl", "a.tl"] : List Text) := by
      decide +kernel
    intro path
    rw [hfirst, hsecond]
    simp [or_comm]
  obtain ⟨_, hperm, hgood⟩ :=
    reported_pairFromTop.order_irrelevant reported_pairFromBottom hroots
  exact ⟨reported_pairFromTop, reported_pairFromBottom, hperm,
    (hgood not_isCircular_pairFromTop).2.1⟩

end Setting

end Rebuild
