import Rebuild.Proofs.Graph.Contents
import Rebuild.Proofs.Project.Scan

/-!
# Insertions that fail

An insertion ends at the first file whose requires cannot be asked for at all.  It has no way back:
the nodes put in by then stay, behind all earlier nodes and without dependents, and the one whose
references were being followed has paths for the first of them only.  The earlier nodes are as they
were, and a failure of the inserted file itself comes before anything is put in.
-/

namespace Rebuild

/-- A node that holds nothing but answers of the sources, perhaps not all of them yet. -/
structure Node.AnsweredBy {σ ε : Type} (sources : Sources σ ε) (here : Location)
    (scope : Option Text) (node : Node) : Prop where
  relative : Path.isAbsolute node.input = false
  extension : Path.extension node.input = Path.sourceExtension
  requires : ∃ state, (sources.requires node.input state).1 = .refs node.requires
  distinct : (node.modules.map Prod.fst).Nodup
  modules : ∀ reference path, (reference, path) ∈ node.modules →
    reference ∈ node.requires ∧ ∃ state found,
      (sources.resolve reference state).1 = some found ∧
        path = (Insertion.target here scope found).1

/-- All nodes that are not among those of `before` hold answers of the sources. -/
def Graph.AnsweredSince {σ ε : Type} (sources : Sources σ ε) (here : Location)
    (scope : Option Text) (before after : Graph) : Prop :=
  ∀ node ∈ after.nodes, node.input ∉ before.inputs → node.AnsweredBy sources here scope

section Answers

variable {σ ε : Type} {sources : Sources σ ε} {here : Location} {scope : Option Text}
  {before graph : Graph} {path reference found : Text} {references : List Text} {state : σ}

theorem Node.AnsweredBy.withModule {node : Node} (hnode : node.AnsweredBy sources here scope)
    (hreference : reference ∈ node.requires)
    (hfound : (sources.resolve reference state).1 = some found) :
    (node.withModule reference (Insertion.target here scope found).1).AnsweredBy
      sources here scope where
  relative := hnode.relative
  extension := hnode.extension
  requires := hnode.requires
  distinct := Node.nodup_keys_putModule hnode.distinct
  modules := by
    intro other target hmem
    rcases (Node.mem_putModule_iff hnode.distinct).1 hmem with ⟨rfl, rfl⟩ | ⟨_, hold⟩
    · exact ⟨hreference, state, found, hfound, rfl⟩
    · exact hnode.modules other target hold

namespace Graph.AnsweredSince

theorem refl (graph : Graph) : AnsweredSince sources here scope graph graph :=
  fun _ hnode hnew => (hnew (Graph.input_mem_inputs hnode)).elim

theorem add (hgraph : AnsweredSince sources here scope before graph)
    (hnew : path ∉ graph.inputs) (hrelative : Path.isAbsolute path = false)
    (hextension : Path.extension path = Path.sourceExtension)
    (hanswer : (sources.requires path state).1 = .refs references) :
    AnsweredSince sources here scope before (graph.add (.ofRequires path references)) := by
  intro node hnode hnot
  have hnodes :
      (graph.add (.ofRequires path references)).nodes =
        graph.nodes ++ [.ofRequires path references] :=
    Graph.nodes_add hnew
  rw [hnodes, List.mem_append, List.mem_singleton] at hnode
  rcases hnode with hold | rfl
  · exact hgraph node hold hnot
  · exact ⟨hrelative, hextension, ⟨state, hanswer⟩, List.nodup_nil,
      fun _ _ hmem => (List.not_mem_nil hmem).elim⟩

theorem recordModule (hgraph : AnsweredSince sources here scope before graph)
    (hopened : ∃ node ∈ graph.nodes, node.input = path ∧ reference ∈ node.requires)
    (hfound : (sources.resolve reference state).1 = some found) :
    AnsweredSince sources here scope before
      (graph.recordModule path reference (Insertion.target here scope found).1) := by
  intro node hnode hnot
  rw [Graph.nodes_recordModule] at hnode
  obtain ⟨old, hold, rfl⟩ := List.mem_map.1 hnode
  obtain ⟨opened, hmem, hinput, hreference⟩ := hopened
  split at hnot
  next hpath =>
    rw [if_pos hpath]
    have hsame : opened = old := Graph.eq_of_input_eq hmem hold (hinput.trans hpath.symm)
    exact (hgraph old hold hnot).withModule (hsame ▸ hreference) hfound
  next hpath =>
    rw [if_neg hpath]
    exact hgraph old hold hnot

end Graph.AnsweredSince

namespace Insertion

theorem answeredSince_foldl_follow {visit : Text → Insertion σ ε → Insertion σ ε}
    {required : List Text}
    (hextends : ∀ text (run : Insertion σ ε), run.graph.Extends (visit text run).graph)
    (hvisit : ∀ text (run : Insertion σ ε),
      Graph.AnsweredSince sources here scope before run.graph →
        Graph.AnsweredSince sources here scope before (visit text run).graph)
    (hreferences : references ⊆ required) (run : Insertion σ ε)
    (hopened : ∃ node ∈ run.graph.nodes, node.input = path ∧ node.requires = required)
    (hrun : Graph.AnsweredSince sources here scope before run.graph) :
    Graph.AnsweredSince sources here scope before
      (references.foldl (follow sources here scope path visit) run).graph := by
  induction references generalizing run with
  | nil => exact hrun
  | cons reference rest ih =>
      obtain ⟨hreference, hrest⟩ := List.cons_subset.1 hreferences
      rw [List.foldl_cons]
      obtain ⟨opened, hmem, hinput, hrequires⟩ := hopened
      -- the open node keeps its requires, whatever is recorded at it or found behind it
      have hrecorded (target : Text) :
          ∃ node ∈ (run.graph.recordModule path reference target).nodes,
            node.input = path ∧ node.requires = required := by
        refine ⟨opened.withModule reference target, ?_, hinput, hrequires⟩
        rw [Graph.nodes_recordModule]
        exact List.mem_map.2 ⟨opened, hmem, if_pos hinput⟩
      have hopenedAt : ∃ node ∈ run.graph.nodes, node.input = path ∧ reference ∈ node.requires :=
        ⟨opened, hmem, hinput, hrequires ▸ hreference⟩
      have hstep := followStep_follow sources here scope path visit run reference
      generalize follow sources here scope path visit run reference = result at hstep
      cases hstep with
      | stopped => exact ih hrest run ⟨opened, hmem, hinput, hrequires⟩ hrun
      | unresolved => exact ih hrest _ ⟨opened, hmem, hinput, hrequires⟩ hrun
      | recorded _ hanswer =>
          have hfound := congrArg Prod.fst hanswer
          exact ih hrest _ (hrecorded _) (hrun.recordModule hopenedAt hfound)
      | entered _ hanswer =>
          have hfound := congrArg Prod.fst hanswer
          obtain ⟨node, hnode, hkept⟩ := hrecorded _
          refine ih hrest _ ⟨node, (hextends _ _).mem_nodes hnode, hkept⟩ ?_
          exact hvisit _ _ (hrun.recordModule hopenedAt hfound)

theorem answeredSince_visit (sources : Sources σ ε) (here : Location) (scope : Option Text)
    (depth : Nat) (text : Text) (run : Insertion σ ε)
    (hrun : Graph.AnsweredSince sources here scope before run.graph) :
    Graph.AnsweredSince sources here scope before
      (visit sources here scope depth text run).graph := by
  induction depth generalizing text run with
  | zero => exact hrun
  | succ depth ih =>
      have hstep := visitStep_visit sources here scope depth text run
      generalize visit sources here scope (depth + 1) text run = result at hstep
      cases hstep with
      | absolute => exact hrun
      | known => exact hrun
      | otherExtension => exact hrun
      | failed => exact hrun
      | rejected => exact hrun
      | @opened references state hrelative hnew hextension hanswer =>
          have hnodes :
              (run.graph.add (.ofRequires (Path.canonical text) references)).nodes =
                run.graph.nodes ++ [.ofRequires (Path.canonical text) references] :=
            Graph.nodes_add hnew
          apply answeredSince_foldl_follow (visit_extends sources here scope depth) ih
            (List.Subset.refl references)
          · refine ⟨.ofRequires (Path.canonical text) references, ?_, rfl, rfl⟩
            rw [hnodes]
            exact List.mem_append_right _ List.mem_cons_self
          · refine hrun.add hnew ?_ hextension (congrArg Prod.fst hanswer)
            rwa [Path.isAbsolute_canonical]

theorem mem_inputs_foldl_follow {visit : Text → Insertion σ ε → Insertion σ ε}
    (hextends : ∀ text (run : Insertion σ ε), run.graph.Extends (visit text run).graph)
    (references : List Text) (run : Insertion σ ε) :
    ∀ other ∈ run.graph.inputs,
      other ∈ (references.foldl (follow sources here scope path visit) run).graph.inputs := by
  induction references generalizing run with
  | nil => exact fun _ hother => hother
  | cons reference rest ih =>
      exact fun other hother => ih _ other (mem_inputs_follow hextends other hother)

/-- What a visit that fails has done: nothing when the file itself fails, and otherwise the file is
in. -/
inductive FailedVisit (sources : Sources σ ε) (text : Text) (run : Insertion σ ε) (error : ε) :
    Graph → Prop
  | atOnce (hanswer : (sources.requires (Path.canonical text) run.state).1 = .failed error) :
      FailedVisit sources text run error run.graph
  | inside {references : List Text} {after : Graph}
      (hanswer : (sources.requires (Path.canonical text) run.state).1 = .refs references)
      (hnew : Path.canonical text ∉ run.graph.inputs)
      (hin : Path.canonical text ∈ after.inputs) :
      FailedVisit sources text run error after

theorem failedVisit_visit {depth : Nat} {text : Text} {run : Insertion σ ε} {error : ε}
    (hrun : run.stop = none)
    (hstop : (visit sources here scope depth text run).stop = some (.failed error)) :
    FailedVisit sources text run error (visit sources here scope depth text run).graph := by
  cases depth with
  | zero => cases hstop
  | succ depth =>
      have hstep := visitStep_visit sources here scope depth text run
      generalize visit sources here scope (depth + 1) text run = result at hstep hstop
      cases hstep with
      | absolute => simp [note, hrun] at hstop
      | known => simp [hrun] at hstop
      | otherExtension => simp [hrun] at hstop
      | failed hanswer =>
          cases hstop
          exact .atOnce (congrArg Prod.fst hanswer)
      | rejected => simp [note, hrun] at hstop
      | @opened references state _ hnew _ hanswer =>
          refine .inside (congrArg Prod.fst hanswer) hnew ?_
          apply mem_inputs_foldl_follow (visit_extends sources here scope depth)
          have hinputs :
              (run.graph.add (.ofRequires (Path.canonical text) references)).inputs =
                run.graph.inputs ++ [Path.canonical text] :=
            Graph.inputs_add hnew
          rw [hinputs]
          exact List.mem_append_right _ List.mem_cons_self

theorem graph_finish_of_stopped {run : Insertion σ ε} {stop : Stop ε}
    (hstop : run.stop = some stop) : run.finish = run := by
  unfold finish
  rw [hstop]
  rfl

end Insertion

/-- After an insertion that fails all earlier nodes are as they were and in their places.  Behind
them stand new nodes, with nothing in them but answers of the sources; there are none exactly when
the inserted file is the one that fails. -/
theorem Graph.nodes_of_failed_insert {depth : Nat} {text : Text} {error : ε}
    (hverdict :
      (graph.insert sources here scope depth text state).verdict = .error (.failed error)) :
    ∃ added, (graph.insert sources here scope depth text state).graph.nodes =
        graph.nodes ++ added ∧
      (added = [] ↔ (sources.requires (Path.canonical text) state).1 = .failed error) ∧
      ∀ node ∈ added, node.IsFresh ∧ node.AnsweredBy sources here scope := by
  have hstop := Insertion.stop_of_verdict hverdict
  rw [insert, Insertion.stop_finish] at hstop
  rw [insert, Insertion.graph_finish_of_stopped hstop]
  have hfailed := Insertion.failedVisit_visit rfl hstop
  have hanswered :=
    Insertion.answeredSince_visit sources here scope depth text (.start graph state)
      (AnsweredSince.refl graph)
  obtain ⟨added, hnodes, hfresh⟩ :=
    Insertion.visit_extends sources here scope depth text (.start graph state)
  generalize (Insertion.visit sources here scope depth text (.start graph state)).graph = after
    at hfailed hanswered hnodes
  refine ⟨added, hnodes, ?_, fun node hnode => ⟨hfresh node hnode, ?_⟩⟩
  · cases hfailed with
    | atOnce hanswer =>
        exact iff_of_true (List.self_eq_append_right.1 hnodes) hanswer
    | inside hanswer hnew hin =>
        refine iff_of_false ?_ ?_
        · rintro rfl
          rw [List.append_nil] at hnodes
          exact hnew (ext_nodes hnodes ▸ hin)
        · intro hfails
          cases hanswer.symm.trans hfails
  · apply hanswered node
    · rw [hnodes]
      exact List.mem_append_right _ hnode
    · -- paths are distinct over both parts of the list
      have hdistinct := after.distinct
      rw [hnodes, List.map_append] at hdistinct
      intro hold
      exact (List.disjoint_of_nodup_append hdistinct) hold (List.mem_map_of_mem hnode)

end Answers

/-! ## A failure below the inserted file -/

namespace Workspace

/-- `a.tl` requires `b`, whose file names a literal that it does not have. -/
def forged : Workspace where
  root :=
    .file "a.tl" (textFile "require[[b]]") (.file "b.tl" (textFile "require\x000\x00")
      (.file "c.tl" (textFile "") .empty))
  rootModified := .ofSeconds 0 0
  location := []

def forgedStart : Graph :=
  (forged.insertFile (.ofList []) none .empty "c.tl").graph

def forgedRun : Insertion Unit Failure :=
  forged.insertFile (.ofList []) none forgedStart "a.tl"

theorem verdict_forgedRun : forgedRun.verdict = .error (.failed (.noSuchLiteral 0)) := by
  have hmatch : (match forgedRun.verdict with
      | .error (.failed (.noSuchLiteral 0)) => true
      | _ => false) = true := by
    decide +kernel
  split at hmatch
  next hverdict => exact hverdict
  next => cases hmatch

theorem inputs_forgedStart : forgedStart.inputs = (["c.tl"] : List Text) := by
  decide +kernel

theorem inputs_forgedRun : forgedRun.graph.inputs = (["c.tl", "a.tl"] : List Text) := by
  decide +kernel

theorem nodes_of_failed_insert_forged :
    forgedRun.verdict = .error (.failed (.noSuchLiteral 0)) ∧
      ∃ added, forgedRun.graph.nodes = forgedStart.nodes ++ added ∧
        added.map Node.input = (["a.tl"] : List Text) ∧
        ∀ node ∈ added, node.IsFresh ∧
          node.AnsweredBy (forged.sources (.ofList [])) forged.location none := by
  refine ⟨verdict_forgedRun, ?_⟩
  obtain ⟨added, hnodes, _, hadded⟩ := Graph.nodes_of_failed_insert verdict_forgedRun
  refine ⟨added, hnodes, ?_, hadded⟩
  have hinputs : forgedRun.graph.inputs = forgedStart.inputs ++ added.map Node.input := by
    rw [Graph.inputs, Graph.inputs, ← List.map_append]
    exact congrArg (List.map Node.input) hnodes
  rw [inputs_forgedRun, inputs_forgedStart] at hinputs
  exact (List.cons.inj hinputs).2.symm

theorem inserted_forgedStart : forgedStart.Inserted := by
  have hstop :
      (Insertion.visit (forged.sources (.ofList [])) forged.location none forged.searchDepth "c.tl"
        (.start .empty ())).stop.isNone = true := by
    decide +kernel
  exact .insert .empty _ _ _ _ _ _ (Graph.verdict_insert (Option.isNone_iff_eq_none.1 hstop))

/-- A file stays in the graph although its insertion fails. -/
theorem failed_insert_leaves_file :
    forgedStart.Inserted ∧ forgedRun.verdict = .error (.failed (.noSuchLiteral 0)) ∧
      ("a.tl" : Text) ∉ forgedStart.inputs ∧ ("a.tl" : Text) ∈ forgedRun.graph.inputs := by
  refine ⟨inserted_forgedStart, verdict_forgedRun, ?_, ?_⟩
  · simp [inputs_forgedStart]
  · simp [inputs_forgedRun]

end Workspace

end Rebuild
