import Rebuild.Graph.SourceTable
import Rebuild.Proofs.Graph.Closure

/-!
# Insertions and the exact closure

An insertion leaves the nodes that are there as they are and puts new nodes without dependents
behind them, whatever the sources answer and also when it ends early.  Recorded paths therefore
only grow, dependents recorded before stay the ends of real paths, and closing them at the end of
the insertion makes them exact.  The graphs that insertions produce, one after the other, from any
sources, directories and scopes, are collected in `Graph.Inserted`.
-/

namespace Rebuild

/-- A node as it is when its file has just been inserted, but for its requires and modules. -/
structure Node.IsFresh (node : Node) : Prop where
  output : node.output = none
  dependents : node.dependents = ∅
  mark : node.mark = .unset

namespace Graph

/-- All nodes of `before` stand unchanged at the front of `after`, with fresh nodes behind them. -/
def Extends (before after : Graph) : Prop :=
  ∃ added, after.nodes = before.nodes ++ added ∧ ∀ node ∈ added, node.IsFresh

namespace Extends

variable {base before middle after : Graph} {path : Text}

theorem refl (graph : Graph) : graph.Extends graph :=
  ⟨[], (List.append_nil _).symm, fun _ hnode => (List.not_mem_nil hnode).elim⟩

theorem trans (hfirst : before.Extends middle) (hsecond : middle.Extends after) :
    before.Extends after := by
  obtain ⟨first, hfirstNodes, hfirstFresh⟩ := hfirst
  obtain ⟨second, hsecondNodes, hsecondFresh⟩ := hsecond
  refine ⟨first ++ second, ?_, ?_⟩
  · rw [hsecondNodes, hfirstNodes, List.append_assoc]
  · intro node hnode
    rcases List.mem_append.1 hnode with hnode | hnode
    · exact hfirstFresh node hnode
    · exact hsecondFresh node hnode

theorem mem_nodes (hextends : before.Extends after) {node : Node}
    (hnode : node ∈ before.nodes) : node ∈ after.nodes := by
  obtain ⟨added, hnodes, _⟩ := hextends
  rw [hnodes]
  exact List.mem_append_left added hnode

theorem mem_inputs (hextends : before.Extends after) (hpath : path ∈ before.inputs) :
    path ∈ after.inputs := by
  obtain ⟨node, hnode, rfl⟩ := Graph.mem_inputs.1 hpath
  exact input_mem_inputs (hextends.mem_nodes hnode)

theorem edge (hextends : before.Extends after) {source target : Text}
    (hedge : before.Edge source target) : after.Edge source target := by
  obtain ⟨⟨node, hnode, hinput, htarget⟩, hmem⟩ := hedge
  exact ⟨⟨node, hextends.mem_nodes hnode, hinput, htarget⟩, hextends.mem_inputs hmem⟩

theorem transGen (hextends : before.Extends after) {source target : Text}
    (hpath : Relation.TransGen before.Edge source target) :
    Relation.TransGen after.Edge source target :=
  Relation.TransGen.mono (fun _ _ => hextends.edge) source target hpath

theorem mem_dependentsAt (hextends : before.Extends after) {dependent : Text}
    (hmem : dependent ∈ after.dependentsAt path) : dependent ∈ before.dependentsAt path := by
  have hpath := mem_inputs_of_mem_dependentsAt hmem
  obtain ⟨node, hnode, rfl⟩ := Graph.mem_inputs.1 hpath
  rw [dependentsAt_input hnode] at hmem
  obtain ⟨added, hnodes, hfresh⟩ := hextends
  rw [hnodes] at hnode
  rcases List.mem_append.1 hnode with hnode | hnode
  · rwa [dependentsAt_input hnode]
  · rw [(hfresh node hnode).dependents] at hmem
    exact (PathSet.not_mem_empty hmem).elim

theorem of_mem_dependentsAt (hextends : before.Extends after) {dependent : Text}
    (hmem : dependent ∈ before.dependentsAt path) : dependent ∈ after.dependentsAt path := by
  obtain ⟨node, hnode, rfl⟩ := Graph.mem_inputs.1 (mem_inputs_of_mem_dependentsAt hmem)
  rw [dependentsAt_input hnode] at hmem
  rwa [dependentsAt_input (hextends.mem_nodes hnode)]

theorem add (graph : Graph) {node : Node} (hfresh : node.IsFresh) :
    graph.Extends (graph.add node) := by
  by_cases hpath : node.input ∈ graph.inputs
  · have hadd : graph.add node = graph := by
      simp [Graph.add, has_eq_true_iff.2 hpath]
    rw [hadd]
    exact refl graph
  · refine ⟨[node], nodes_add hpath, ?_⟩
    intro other hother
    rwa [List.mem_singleton.1 hother]

theorem recordModule (hextends : base.Extends after) (hpath : path ∉ base.inputs)
    (reference target : Text) :
    base.Extends (after.recordModule path reference target) := by
  obtain ⟨added, hnodes, hfresh⟩ := hextends
  refine ⟨added.map fun node =>
    if node.input = path then node.withModule reference target else node, ?_, ?_⟩
  · rw [nodes_recordModule, hnodes, List.map_append]
    congr 1
    conv_rhs => rw [← List.map_id base.nodes]
    apply List.map_congr_left
    intro node hnode
    have hne : node.input ≠ path := fun heq => hpath (heq ▸ input_mem_inputs hnode)
    simp [hne]
  · intro node hnode
    obtain ⟨old, hold, rfl⟩ := List.mem_map.1 hnode
    have holdFresh := hfresh old hold
    split
    · exact ⟨holdFresh.output, holdFresh.dependents, holdFresh.mark⟩
    · exact holdFresh

end Extends

end Graph

/-! ## The steps of an insertion -/

namespace Insertion

variable {σ ε : Type} {sources : Sources σ ε} {here : Location} {scope : Option Text}

/-- What following one reference can come to. -/
inductive FollowStep (sources : Sources σ ε) (here : Location) (scope : Option Text)
    (path : Text) (visit : Text → Insertion σ ε → Insertion σ ε) (run : Insertion σ ε)
    (reference : Text) : Insertion σ ε → Prop
  | stopped (hstop : run.stop ≠ none) :
      FollowStep sources here scope path visit run reference run
  | unresolved {state : σ} (hstop : run.stop = none)
      (hanswer : sources.resolve reference run.state = (none, state)) :
      FollowStep sources here scope path visit run reference
        ({ run with state }.note (.unresolved path reference))
  | recorded {found : Text} {state : σ} (hstop : run.stop = none)
      (hanswer : sources.resolve reference run.state = (some found, state))
      (hinserted : (target here scope found).2 = false) :
      FollowStep sources here scope path visit run reference
        { run with
          state
          graph := run.graph.recordModule path reference (target here scope found).1 }
  | entered {found : Text} {state : σ} (hstop : run.stop = none)
      (hanswer : sources.resolve reference run.state = (some found, state))
      (hinserted : (target here scope found).2 = true) :
      FollowStep sources here scope path visit run reference
        (visit (target here scope found).1
          { run with
            state
            graph := run.graph.recordModule path reference (target here scope found).1 })

theorem followStep_follow (sources : Sources σ ε) (here : Location) (scope : Option Text)
    (path : Text) (visit : Text → Insertion σ ε → Insertion σ ε)
    (run : Insertion σ ε) (reference : Text) :
    FollowStep sources here scope path visit run reference
      (follow sources here scope path visit run reference) := by
  unfold follow
  split
  next hstop => exact .stopped (Option.isSome_iff_ne_none.1 hstop)
  next hstop =>
    have hrunning : run.stop = none := by simpa using hstop
    split
    next state hanswer => exact .unresolved hrunning hanswer
    next found state hanswer =>
      dsimp only
      split
      next hinserted => exact .entered hrunning hanswer hinserted
      next hinserted => exact .recorded hrunning hanswer (by simpa using hinserted)

/-- What visiting a file can come to, with one more level of depth than its modules have. -/
inductive VisitStep (sources : Sources σ ε) (here : Location) (scope : Option Text)
    (depth : Nat) (text : Text) (run : Insertion σ ε) : Insertion σ ε → Prop
  | absolute (habsolute : Path.isAbsolute text = true) :
      VisitStep sources here scope depth text run (run.note (.absolutePath text))
  | known (hknown : Path.canonical text ∈ run.graph.inputs) :
      VisitStep sources here scope depth text run run
  | otherExtension
      (hextension : Path.extension (Path.canonical text) ≠ Path.sourceExtension) :
      VisitStep sources here scope depth text run run
  | failed {error : ε} {state : σ}
      (hanswer :
        sources.requires (Path.canonical text) run.state = (.failed error, state)) :
      VisitStep sources here scope depth text run
        { run with state, stop := some (.failed error) }
  | rejected {reason : Text} {state : σ}
      (hanswer :
        sources.requires (Path.canonical text) run.state = (.rejected reason, state)) :
      VisitStep sources here scope depth text run
        ({ run with state }.note (.rejected (Path.canonical text) reason))
  | opened {references : List Text} {state : σ}
      (hrelative : Path.isAbsolute text = false)
      (hnew : Path.canonical text ∉ run.graph.inputs)
      (hextension : Path.extension (Path.canonical text) = Path.sourceExtension)
      (hanswer :
        sources.requires (Path.canonical text) run.state = (.refs references, state)) :
      VisitStep sources here scope depth text run
        (references.foldl
          (follow sources here scope (Path.canonical text)
            (visit sources here scope depth))
          { run with
            state
            graph := run.graph.add (.ofRequires (Path.canonical text) references) })

theorem visitStep_visit (sources : Sources σ ε) (here : Location) (scope : Option Text)
    (depth : Nat) (text : Text) (run : Insertion σ ε) :
    VisitStep sources here scope depth text run
      (visit sources here scope (depth + 1) text run) := by
  unfold visit
  dsimp only
  split
  next habsolute => exact .absolute habsolute
  next habsolute =>
    split
    next hknown => exact .known (Graph.has_eq_true_iff.1 hknown)
    next hknown =>
      split
      next hextension => exact .otherExtension hextension
      next hextension =>
        split
        next hanswer => exact .failed hanswer
        next hanswer => exact .rejected hanswer
        next hanswer =>
          refine .opened (by simpa using habsolute) ?_ (not_not.1 hextension) hanswer
          exact fun hmem => hknown (Graph.has_eq_true_iff.2 hmem)

theorem foldl_follow_extends {base : Graph} {path : Text}
    {visit : Text → Insertion σ ε → Insertion σ ε}
    (hvisit : ∀ text (run : Insertion σ ε), run.graph.Extends (visit text run).graph)
    (hpath : path ∉ base.inputs) (references : List Text) (run : Insertion σ ε)
    (hrun : base.Extends run.graph) :
    base.Extends (references.foldl (follow sources here scope path visit) run).graph := by
  -- the node at `path` is none of `base`, so whatever is recorded at it changes a new node
  induction references generalizing run with
  | nil => exact hrun
  | cons reference rest ih =>
      rw [List.foldl_cons]
      apply ih
      have hstep := followStep_follow sources here scope path visit run reference
      generalize follow sources here scope path visit run reference = result at hstep
      cases hstep with
      | stopped => exact hrun
      | unresolved => exact hrun
      | recorded => exact hrun.recordModule hpath reference _
      | entered => exact (hrun.recordModule hpath reference _).trans (hvisit _ _)

theorem visit_extends (sources : Sources σ ε) (here : Location) (scope : Option Text)
    (depth : Nat) (text : Text) (run : Insertion σ ε) :
    run.graph.Extends (visit sources here scope depth text run).graph := by
  induction depth generalizing text run with
  | zero => exact Graph.Extends.refl run.graph
  | succ depth ih =>
      have hstep := visitStep_visit sources here scope depth text run
      generalize visit sources here scope (depth + 1) text run = result at hstep
      cases hstep with
      | absolute => exact Graph.Extends.refl run.graph
      | known => exact Graph.Extends.refl run.graph
      | otherExtension => exact Graph.Extends.refl run.graph
      | failed => exact Graph.Extends.refl run.graph
      | rejected => exact Graph.Extends.refl run.graph
      | opened hrelative hnew =>
          apply foldl_follow_extends ih hnew
          exact Graph.Extends.add run.graph ⟨rfl, rfl, rfl⟩

theorem eq_none_of_verdict {run : Insertion σ ε} {paths : List Text}
    (hverdict : run.verdict = .ok paths) : run.stop = none ∧ run.graph.cycles = paths := by
  unfold verdict at hverdict
  cases hstop : run.stop with
  | none =>
      rw [hstop] at hverdict
      exact ⟨rfl, Except.ok.inj hverdict⟩
  | some stop =>
      rw [hstop] at hverdict
      cases hverdict

theorem stop_of_verdict {run : Insertion σ ε} {stop : Stop ε}
    (hverdict : run.verdict = .error stop) : run.stop = some stop := by
  unfold verdict at hverdict
  split at hverdict
  next other hstop =>
    cases hverdict
    exact hstop
  next => cases hverdict

theorem stop_finish (run : Insertion σ ε) : run.finish.stop = run.stop := by
  unfold finish
  split
  · rfl
  · dsimp only
    split <;> rfl

theorem graph_finish {run : Insertion σ ε} (hstop : run.stop = none) :
    run.finish.graph = run.graph.close := by
  unfold finish
  rw [hstop]
  simp only [Option.isSome_none, Bool.false_eq_true, if_false]
  split <;> rfl

/-- An insertion that was stopped is left as it is, and any other is closed. -/
theorem graph_finish_cases (run : Insertion σ ε) :
    run.finish.graph = run.graph ∨ run.finish.graph = run.graph.close := by
  cases hstop : run.stop with
  | none => exact .inr (graph_finish hstop)
  | some stop =>
      refine .inl (congrArg Insertion.graph (if_pos ?_))
      rw [hstop, Option.isSome_some]

end Insertion

namespace Graph

/-! ## Exact dependents -/

/-- Every recorded dependent is the start of a path. -/
def Sound (graph : Graph) : Prop :=
  ∀ path, ∀ dependent ∈ graph.dependentsAt path,
    Relation.TransGen graph.Edge dependent path

/-- The dependents are the starts of all paths. -/
def Exact (graph : Graph) : Prop :=
  ∀ path dependent,
    dependent ∈ graph.dependentsAt path ↔ Relation.TransGen graph.Edge dependent path

theorem exact_empty : Exact empty := by
  intro path dependent
  constructor
  · intro hmem
    exact (PathSet.not_mem_empty hmem).elim
  · intro hpath
    have hmem := source_mem_of_transGen hpath
    simp at hmem

theorem Exact.sound {graph : Graph} (hexact : graph.Exact) : graph.Sound :=
  fun path dependent => (hexact path dependent).1

theorem Sound.extends {before after : Graph} (hsound : before.Sound)
    (hextends : before.Extends after) : after.Sound :=
  fun path dependent hmem =>
    hextends.transGen (hsound path dependent (hextends.mem_dependentsAt hmem))

theorem Sound.exact_close {graph : Graph} (hsound : graph.Sound) : graph.close.Exact := by
  intro path dependent
  rw [mem_dependentsAt_close, edge_close]
  constructor
  · rintro (hmem | ⟨source, hsource, rfl | hmem⟩)
    · exact hsound path dependent hmem
    · exact hsource
    · exact (hsound source dependent hmem).trans hsource
  · exact fun hpath => Or.inr ⟨dependent, hpath, Or.inl rfl⟩

section Insert

variable {σ ε : Type} {graph : Graph} {sources : Sources σ ε} {here : Location}
  {scope : Option Text} {depth : Nat} {text : Text} {state : σ} {paths : List Text}

theorem insert_eq_close
    (hverdict : (graph.insert sources here scope depth text state).verdict = .ok paths) :
    (Insertion.visit sources here scope depth text (.start graph state)).stop = none ∧
      (graph.insert sources here scope depth text state).graph =
        (Insertion.visit sources here scope depth text (.start graph state)).graph.close := by
  have hstop := (Insertion.eq_none_of_verdict hverdict).1
  rw [insert, Insertion.stop_finish] at hstop
  exact ⟨hstop, Insertion.graph_finish hstop⟩

theorem verdict_insert
    (hstop : (Insertion.visit sources here scope depth text (.start graph state)).stop = none) :
    (graph.insert sources here scope depth text state).verdict =
      .ok (graph.insert sources here scope depth text state).graph.cycles := by
  rw [← Insertion.stop_finish] at hstop
  unfold Insertion.verdict insert
  rw [hstop]

theorem Exact.insert (hexact : graph.Exact)
    (hverdict : (graph.insert sources here scope depth text state).verdict = .ok paths) :
    (graph.insert sources here scope depth text state).graph.Exact := by
  rw [(insert_eq_close hverdict).2]
  exact (hexact.sound.extends
    (Insertion.visit_extends sources here scope depth text _)).exact_close

end Insert

/-- The graphs that come out of insertions that return, the first one into the empty graph.  Every
insertion may have sources, a working directory and a scope of its own. -/
inductive Inserted : Graph → Prop
  | empty : Inserted .empty
  | insert {graph : Graph} {σ ε : Type} {paths : List Text} (hgraph : Inserted graph)
      (sources : Sources σ ε) (here : Location) (scope : Option Text) (depth : Nat)
      (text : Text) (state : σ)
      (hverdict : (graph.insert sources here scope depth text state).verdict = .ok paths) :
      Inserted (graph.insert sources here scope depth text state).graph

theorem Inserted.exact {graph : Graph} (hgraph : graph.Inserted) : graph.Exact := by
  induction hgraph with
  | empty => exact exact_empty
  | insert _ _ _ _ _ _ _ hverdict ih => exact ih.insert hverdict

/-- The graphs that insertions leave, whether they return or fail on the way. -/
inductive Grown : Graph → Prop
  | empty : Grown .empty
  | insert {graph : Graph} {σ ε : Type} (hgraph : Grown graph) (sources : Sources σ ε)
      (here : Location) (scope : Option Text) (depth : Nat) (text : Text) (state : σ) :
      Grown (graph.insert sources here scope depth text state).graph

theorem Inserted.grown {graph : Graph} (hgraph : graph.Inserted) : graph.Grown := by
  induction hgraph with
  | empty => exact .empty
  | insert _ sources here scope depth text state _ ih =>
      exact .insert ih sources here scope depth text state

/-- What the visit to files keeps, and the closing of dependents too, holds of every graph that
insertions leave. -/
theorem Grown.rec_extends {P : Graph → Prop} (hempty : P .empty)
    (hextends : ∀ before after : Graph, P before → before.Extends after → P after)
    (hclose : ∀ graph : Graph, P graph → P graph.close) {graph : Graph} (hgraph : graph.Grown) :
    P graph := by
  induction hgraph with
  | empty => exact hempty
  | @insert graph σ ε _ sources here scope depth text state ih =>
      have hvisited := hextends _ _ ih
        (Insertion.visit_extends sources here scope depth text (.start graph state))
      rcases Insertion.graph_finish_cases
        (Insertion.visit sources here scope depth text (.start graph state)) with hgraph | hgraph
      · exact hgraph ▸ hvisited
      · exact hgraph ▸ hclose _ hvisited

/-- A failed insertion does not complete the dependents, but leaves none without a path. -/
theorem Grown.sound {graph : Graph} (hgraph : graph.Grown) : graph.Sound :=
  hgraph.rec_extends exact_empty.sound (fun _ _ hsound hextends => hsound.extends hextends)
    fun _ hsound => hsound.exact_close.sound

/-- What holds of fresh nodes, whatever their dependents become, holds of every node. -/
theorem Grown.forall_nodes {P : Node → Prop} (hfresh : ∀ node : Node, node.IsFresh → P node)
    (hkeeps : ∀ (node : Node) (dependents : PathSet), P node → P { node with dependents })
    {graph : Graph} (hgraph : graph.Grown) : ∀ node ∈ graph.nodes, P node := by
  refine hgraph.rec_extends (P := fun graph => ∀ node ∈ graph.nodes, P node) ?_ ?_ ?_
  · exact fun _ hnode => (List.not_mem_nil hnode).elim
  · rintro before after hnodes ⟨added, hadded, hisFresh⟩ node hnode
    rw [hadded] at hnode
    rcases List.mem_append.1 hnode with hnode | hnode
    · exact hnodes node hnode
    · exact hfresh node (hisFresh node hnode)
  · intro graph hnodes node hnode
    obtain ⟨old, hold, dependents, rfl⟩ := exists_of_mem_nodes_close hnode
    exact hkeeps old dependents (hnodes old hold)

theorem Grown.mark_unset {graph : Graph} (hgraph : graph.Grown) :
    ∀ node ∈ graph.nodes, node.mark = .unset :=
  hgraph.forall_nodes (fun _ hfresh => hfresh.mark) (fun _ _ hmark => hmark)

theorem Grown.output_none {graph : Graph} (hgraph : graph.Grown) :
    ∀ node ∈ graph.nodes, node.output = none :=
  hgraph.forall_nodes (fun _ hfresh => hfresh.output) (fun _ _ houtput => houtput)

/-- After any run of insertions the dependents of a node are exactly the nodes from which a path
leads to it. -/
theorem Inserted.dependents_exact {graph : Graph} (hgraph : graph.Inserted) :
    ∀ node ∈ graph.nodes, ∀ dependent,
      dependent ∈ node.dependents ↔
        Relation.TransGen graph.Edge dependent node.input := by
  intro node hnode dependent
  rw [← dependentsAt_input hnode]
  exact hgraph.exact node.input dependent

/-! ## A file that is repaired between two insertions -/

/-- `c` requires `a`, which requires `b`; the file of `b` cannot be parsed. -/
def tableBeforeRepair : SourceTable :=
  ⟨[("a.tl", some ["b"]), ("b.tl", none), ("c.tl", some ["a"])],
    [("a", "a.tl"), ("b", "./b.tl")]⟩

/-- The file of `b` can be parsed, and requires `a`. -/
def tableAfterRepair : SourceTable :=
  ⟨[("b.tl", some ["a"])], [("a", "x/../a.tl")]⟩

/-- The graph of `c` and `a`, with a path for `b` that leads to no node. -/
def beforeRepair : Graph where
  nodes :=
    [⟨"c.tl", none, ["a"], [("a", "a.tl")], ∅, .unset⟩,
      ⟨"a.tl", none, ["b"], [("b", "b.tl")], .singleton "c.tl", .unset⟩]
  distinct := by decide

def repaired : Graph :=
  (beforeRepair.insert tableAfterRepair.sources [] none 2 "b.tl" []).graph

theorem inserted_beforeRepair : beforeRepair.Inserted := by
  have hstop :
      (Insertion.visit tableBeforeRepair.sources [] none 3 "c.tl"
        (.start empty [])).stop.isNone = true := by
    decide +kernel
  have hnodes :
      (empty.insert tableBeforeRepair.sources [] none 3 "c.tl" []).graph.nodes =
        beforeRepair.nodes := by
    decide +kernel
  rw [← ext_nodes hnodes]
  exact .insert .empty _ _ _ _ _ _ (verdict_insert (Option.isNone_iff_eq_none.1 hstop))

theorem stop_visit_repaired :
    (Insertion.visit tableAfterRepair.sources [] none 2 "b.tl"
      (.start beforeRepair [])).stop = none := by
  rw [← Option.isNone_iff_eq_none]
  decide +kernel

theorem inserted_repaired : repaired.Inserted :=
  .insert inserted_beforeRepair _ _ _ _ _ _ (verdict_insert stop_visit_repaired)

theorem inputs_repaired : repaired.inputs = (["c.tl", "a.tl", "b.tl"] : List Text) := by
  have hvisit :
      (Insertion.visit tableAfterRepair.sources [] none 2 "b.tl"
        (.start beforeRepair [])).graph.inputs = (["c.tl", "a.tl", "b.tl"] : List Text) := by
    decide +kernel
  rw [repaired, (insert_eq_close (verdict_insert stop_visit_repaired)).2, inputs_close]
  exact hvisit

theorem dependents_exact_repaired :
    repaired.Inserted ∧
      ∃ node ∈ repaired.nodes, node.input = "b.tl" ∧
        (("c.tl" : Text) ∈ node.dependents ↔
          Relation.TransGen repaired.Edge "c.tl" node.input) := by
  have hmem : ("b.tl" : Text) ∈ repaired.inputs := by simp [inputs_repaired]
  obtain ⟨node, hnode, hinput⟩ := mem_inputs.1 hmem
  exact ⟨inserted_repaired, node, hnode, hinput,
    inserted_repaired.dependents_exact node hnode "c.tl"⟩

end Graph

end Rebuild
