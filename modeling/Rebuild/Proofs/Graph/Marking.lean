import Rebuild.Proofs.Graph.Insertion
import Rebuild.Proofs.Graph.Order

/-!
# What marking comes to

Marks are asked for in any order and any number of times.  The invariant says at every moment what
the requests made so far come to: a node is marked for compilation exactly when this was asked for
it, and it is unset exactly when nothing was asked for it or for a node it depends on.  So each
dependent of a marked node is marked, and a walk may stop at a marked node without leaving anything
out.  The invariant needs dependents that hold their own dependents, which closed graphs have.
-/

namespace Rebuild

theorem Mark.eq_typecheck_iff {mark : Mark} {compiled due : Prop}
    (hcompile : mark = .compile ↔ compiled) (hunset : mark = .unset ↔ ¬compiled ∧ ¬due) :
    mark = .typecheck ↔ ¬compiled ∧ due := by
  rw [← hcompile] at hunset ⊢
  cases mark with
  | unset => simpa using hunset
  | typecheck => simpa using hunset
  | compile => simp

/-- A request to mark: one node for compilation, one for a type check, or for compilation each node
for which a test answers yes. -/
inductive MarkStep where
  | compile (path : Text)
  | typecheck (path : Text)
  | each (test : Text → Bool)

namespace MarkStep

/-- Evaluates a test for a path and writes the path down. -/
def recorded (test : Text → Bool) (path : Text) : StateM (List Text) Bool := do
  modify (· ++ [path])
  pure (test path)

/-- Carries out a request; the state records the paths whose tests are evaluated. -/
def run (graph : Graph) : MarkStep → StateM (List Text) Graph
  | compile path => pure (graph.markCompile path)
  | typecheck path => pure (graph.markTypecheck path)
  | each test => graph.markEach (recorded test)

def isEach : MarkStep → Bool
  | each _ => true
  | _ => false

def Compiles (path : Text) : MarkStep → Prop
  | compile named => path = named
  | typecheck _ => False
  | each test => test path = true

def Checks (path : Text) : MarkStep → Prop
  | typecheck named => path = named
  | _ => False

end MarkStep

namespace Graph

def runMarks (graph : Graph) (steps : List MarkStep) : StateM (List Text) Graph :=
  steps.foldlM MarkStep.run graph

def CompileTarget (steps : List MarkStep) (path : Text) : Prop :=
  ∃ step ∈ steps, step.Compiles path

def TypecheckTarget (steps : List MarkStep) (path : Text) : Prop :=
  ∃ step ∈ steps, step.Checks path

variable {graph : Graph} {path : Text}

def TransitiveDependents (graph : Graph) : Prop :=
  ∀ path, ∀ dependent ∈ graph.dependentsAt path,
    ∀ further ∈ graph.dependentsAt dependent, further ∈ graph.dependentsAt path

theorem Exact.transitiveDependents (hexact : graph.Exact) : graph.TransitiveDependents := by
  intro path dependent hdependent further hfurther
  rw [hexact] at hdependent hfurther ⊢
  exact hfurther.trans hdependent

/-- Fresh nodes have no dependents, so what is added to a graph breaks no chain of them. -/
theorem Extends.transitiveDependents {before after : Graph} (hextends : before.Extends after)
    (htransitive : before.TransitiveDependents) : after.TransitiveDependents := by
  intro path dependent hdependent further hfurther
  exact hextends.of_mem_dependentsAt (htransitive path dependent
    (hextends.mem_dependentsAt hdependent) further (hextends.mem_dependentsAt hfurther))

/-- Insertions that fail keep the dependents they find, those that return complete them. -/
theorem Grown.transitiveDependents (hgraph : graph.Grown) : graph.TransitiveDependents := by
  suffices hboth : graph.Sound ∧ graph.TransitiveDependents from hboth.2
  refine hgraph.rec_extends (P := fun graph => graph.Sound ∧ graph.TransitiveDependents)
    ⟨exact_empty.sound, exact_empty.transitiveDependents⟩ ?_ ?_
  · rintro before after ⟨hsound, htransitive⟩ hextends
    exact ⟨hsound.extends hextends, hextends.transitiveDependents htransitive⟩
  · rintro graph ⟨hsound, _⟩
    exact ⟨hsound.exact_close.sound, hsound.exact_close.transitiveDependents⟩

theorem TransitiveDependents.congr {other : Graph} (htransitive : graph.TransitiveDependents)
    (hunmarked : other.unmarked = graph.unmarked) : other.TransitiveDependents := by
  have hdependents : other.dependentsAt = graph.dependentsAt :=
    funext (dependentsAt_eq_of_unmarked_eq hunmarked)
  unfold TransitiveDependents
  rwa [hdependents]

theorem UnsetReach.eq_or_mem (htransitive : graph.TransitiveDependents) {start : Text}
    (hreach : graph.UnsetReach start path) :
    path = start ∨ path ∈ graph.dependentsAt start := by
  obtain ⟨_, hway⟩ := hreach
  induction hway with
  | refl => exact Or.inl rfl
  | tail _ hlast ih =>
      rcases ih with rfl | hmem
      · exact Or.inr hlast.1
      · exact Or.inr (htransitive _ _ hmem _ hlast.1)

/-- A target, or a dependent of a node that is one. -/
def Due (graph : Graph) (targets : Text → Prop) (path : Text) : Prop :=
  targets path ∨
    ∃ source ∈ graph.inputs, targets source ∧ path ∈ graph.dependentsAt source

theorem due_eq_of_unmarked_eq {other : Graph} (hunmarked : other.unmarked = graph.unmarked) :
    other.Due = graph.Due := by
  unfold Due
  rw [inputs_eq_of_unmarked_eq hunmarked, funext (dependentsAt_eq_of_unmarked_eq hunmarked)]

theorem due_iff {targets : Text → Prop} :
    graph.Due targets path ↔
      targets path ∨
        ∃ source ∈ graph.nodes, targets source.input ∧ path ∈ source.dependents := by
  unfold Due
  refine or_congr Iff.rfl ⟨?_, ?_⟩
  · rintro ⟨source, hsource, htarget, hmem⟩
    obtain ⟨node, hnode, rfl⟩ := mem_inputs.1 hsource
    exact ⟨node, hnode, htarget, dependentsAt_input hnode ▸ hmem⟩
  · rintro ⟨node, hnode, htarget, hmem⟩
    exact ⟨node.input, input_mem_inputs hnode, htarget,
      (dependentsAt_input hnode).symm ▸ hmem⟩

theorem Due.of_mem_dependentsAt (htransitive : graph.TransitiveDependents)
    {targets : Text → Prop} {dependent : Text} (hdue : graph.Due targets path)
    (hpath : path ∈ graph.inputs) (hdependent : dependent ∈ graph.dependentsAt path) :
    graph.Due targets dependent := by
  rcases hdue with htarget | ⟨source, hsource, htarget, hmem⟩
  · exact Or.inr ⟨path, hpath, htarget, hdependent⟩
  · exact Or.inr ⟨source, hsource, htarget, htransitive source path hmem _ hdependent⟩

theorem due_insert_iff {targets : Text → Prop} {named : Text} :
    graph.Due (fun path => path = named ∨ targets path) path ↔
      graph.Due targets path ∨ path = named ∨ path ∈ graph.dependentsAt named := by
  unfold Due
  constructor
  · rintro ((heq | htarget) | ⟨source, hsource, rfl | htarget, hmem⟩)
    · exact Or.inr (Or.inl heq)
    · exact Or.inl (Or.inl htarget)
    · exact Or.inr (Or.inr hmem)
    · exact Or.inl (Or.inr ⟨source, hsource, htarget, hmem⟩)
  · rintro ((htarget | ⟨source, hsource, htarget, hmem⟩) | heq | hmem)
    · exact Or.inl (Or.inr htarget)
    · exact Or.inr ⟨source, hsource, Or.inr htarget, hmem⟩
    · exact Or.inl (Or.inl heq)
    · exact Or.inr ⟨named, mem_inputs_of_mem_dependentsAt hmem, Or.inl rfl, hmem⟩

/-- The marks are what has been asked for: `compiled` for compilation, `checked` for a type
check. -/
structure MarkedAs (graph : Graph) (compiled checked : Text → Prop) : Prop where
  transitive : graph.TransitiveDependents
  compile_iff : ∀ path ∈ graph.inputs, graph.markAt path = some .compile ↔ compiled path
  unset_iff : ∀ path ∈ graph.inputs,
    graph.IsUnset path ↔ ¬graph.Due (fun path => compiled path ∨ checked path) path

namespace MarkedAs

variable {compiled checked : Text → Prop} {named : Text}

theorem congr {compiled' checked' : Text → Prop} (hmarks : graph.MarkedAs compiled checked)
    (hcompiled : ∀ path ∈ graph.inputs, compiled path ↔ compiled' path)
    (hchecked : ∀ path ∈ graph.inputs, checked path ↔ checked' path) :
    graph.MarkedAs compiled' checked' := by
  refine ⟨hmarks.transitive, ?_, ?_⟩
  · intro path hpath
    rw [hmarks.compile_iff path hpath, hcompiled path hpath]
  · intro path hpath
    rw [hmarks.unset_iff path hpath, not_iff_not]
    unfold Due
    refine or_congr (or_congr (hcompiled path hpath) (hchecked path hpath)) ?_
    refine exists_congr fun source => and_congr_right fun hsource => ?_
    simp only [hcompiled source hsource, hchecked source hsource]

/-- Nothing unset depends on a node that is marked. -/
theorem not_covered (hmarks : graph.MarkedAs compiled checked) (hnamed : ¬graph.IsUnset named)
    (hunset : graph.IsUnset path) : ¬(path = named ∨ path ∈ graph.dependentsAt named) := by
  rintro (rfl | hmem)
  · exact hnamed hunset
  · have hnamedInput := mem_inputs_of_mem_dependentsAt hmem
    have hdue := not_not.1 fun h => hnamed ((hmarks.unset_iff named hnamedInput).2 h)
    exact (hmarks.unset_iff path hunset.mem_inputs).1 hunset
      (hdue.of_mem_dependentsAt hmarks.transitive hnamedInput hmem)

/-- A request for one more path, whose walk has marked it and all its dependents. -/
theorem after {after : Graph} {compiled' checked' : Text → Prop}
    (hmarks : graph.MarkedAs compiled checked) (hunmarked : after.unmarked = graph.unmarked)
    (htargets : ∀ path,
      compiled' path ∨ checked' path ↔ path = named ∨ compiled path ∨ checked path)
    (hcompile : ∀ path ∈ graph.inputs, after.markAt path = some .compile ↔ compiled' path)
    (hunset : ∀ path ∈ graph.inputs, after.IsUnset path ↔
      graph.IsUnset path ∧ ¬(path = named ∨ path ∈ graph.dependentsAt named)) :
    after.MarkedAs compiled' checked' := by
  have hinputs := inputs_eq_of_unmarked_eq hunmarked
  refine ⟨hmarks.transitive.congr hunmarked, ?_, ?_⟩
  · rwa [hinputs]
  · intro path hpath
    rw [hinputs] at hpath
    have hdue :
        after.Due (fun path => compiled' path ∨ checked' path) path ↔
          graph.Due (fun path => path = named ∨ compiled path ∨ checked path) path := by
      rw [due_eq_of_unmarked_eq hunmarked, funext fun path => propext (htargets path)]
    rw [hunset path hpath, hmarks.unset_iff path hpath, hdue, due_insert_iff]
    exact not_or.symm

theorem isUnset_markTypecheck_iff (hmarks : graph.MarkedAs compiled checked) :
    (graph.markTypecheck named).IsUnset path ↔
      graph.IsUnset path ∧ ¬(path = named ∨ path ∈ graph.dependentsAt named) := by
  have hspread := markTypecheck_spread graph named
  by_cases hunset : graph.IsUnset path
  · rw [hspread.isUnset_iff hunset, and_iff_right hunset, not_iff_not]
    constructor
    · rintro ⟨start, hstart, hreach⟩
      rw [List.mem_singleton.1 hstart] at hreach
      exact hreach.eq_or_mem hmarks.transitive
    · intro hcovered
      have hnamed : graph.IsUnset named :=
        not_not.1 fun h => hmarks.not_covered h hunset hcovered
      refine ⟨named, List.mem_singleton_self named, hnamed, ?_⟩
      rcases hcovered with rfl | hmem
      · exact .refl
      · exact .single ⟨hmem, hunset⟩
  · exact iff_of_false (fun hafter => hunset (hspread.isUnset hafter)) fun h => hunset h.1

theorem afterTypecheck (hmarks : graph.MarkedAs compiled checked) (named : Text) :
    (graph.markTypecheck named).MarkedAs compiled
      (fun path => path = named ∨ checked path) := by
  have hspread := markTypecheck_spread graph named
  refine hmarks.after hspread.unmarked (fun _ => or_left_comm) ?_
    (fun _ _ => hmarks.isUnset_markTypecheck_iff)
  intro path hpath
  rw [← hmarks.compile_iff path hpath]
  rcases hspread.changed path with heq | ⟨hmark, start, _, hreach⟩
  · rw [heq]
  · have hunset : graph.markAt path = some .unset := hreach.isUnset
    rw [hmark, hunset]
    simp

theorem isUnset_markCompile_iff (hmarks : graph.MarkedAs compiled checked) :
    (graph.markCompile named).IsUnset path ↔
      graph.IsUnset path ∧ ¬(path = named ∨ path ∈ graph.dependentsAt named) := by
  rcases markCompile_cases graph named with ⟨hsame, hmark⟩ | ⟨hnamed, hspread⟩
  · have hnamed : ¬graph.IsUnset named := by
      intro hunset
      have hcompile := hmark hunset.mem_inputs
      rw [hunset] at hcompile
      cases hcompile
    rw [hsame]
    exact ⟨fun hunset => ⟨hunset, hmarks.not_covered hnamed hunset⟩, fun h => h.1⟩
  · have hset :
        (graph.setMark named .compile).IsUnset path ↔ path ≠ named ∧ graph.IsUnset path := by
      rw [IsUnset, markAt_setMark]
      by_cases heq : path = named <;> simp [heq, hnamed, IsUnset]
    by_cases hunset : path ≠ named ∧ graph.IsUnset path
    · have hiff :
          (∃ start ∈ (graph.dependentsAt named).toList,
              (graph.setMark named .compile).UnsetReach start path) ↔
            path ∈ graph.dependentsAt named := by
        constructor
        · rintro ⟨start, hstart, hreach⟩
          have hmem := hreach.eq_or_mem (hmarks.transitive.congr unmarked_setMark)
          rw [dependentsAt_eq_of_unmarked_eq unmarked_setMark] at hmem
          rcases hmem with rfl | hmem
          · exact hstart
          · exact hmarks.transitive named start hstart path hmem
        · exact fun hmem => ⟨path, hmem, hset.2 hunset, .refl⟩
      rw [hspread.isUnset_iff (hset.2 hunset), hiff]
      simp [hunset]
    · apply iff_of_false
      · exact fun hafter => hunset (hset.1 (hspread.isUnset hafter))
      · exact fun h => hunset ⟨fun heq => h.2 (Or.inl heq), h.1⟩

theorem afterCompile (hmarks : graph.MarkedAs compiled checked) (named : Text) :
    (graph.markCompile named).MarkedAs (fun path => path = named ∨ compiled path) checked := by
  refine hmarks.after unmarked_markCompile (fun _ => or_assoc) ?_
    (fun _ _ => hmarks.isUnset_markCompile_iff)
  intro path hpath
  rw [markAt_markCompile_iff hpath, hmarks.compile_iff path hpath]

theorem afterCompileAll (hmarks : graph.MarkedAs compiled checked) (paths : List Text) :
    (paths.foldl markCompile graph).unmarked = graph.unmarked ∧
      (paths.foldl markCompile graph).MarkedAs
        (fun path => path ∈ paths ∨ compiled path) checked := by
  induction paths generalizing graph compiled with
  | nil => simpa using hmarks
  | cons named rest ih =>
      obtain ⟨hunmarked, hrest⟩ := ih (hmarks.afterCompile named)
      refine ⟨hunmarked.trans unmarked_markCompile, ?_⟩
      refine hrest.congr (fun path _ => ?_) (fun _ _ => Iff.rfl)
      rw [List.mem_cons]
      exact or_left_comm.trans or_assoc.symm

end MarkedAs

/-! ## Runs of requests -/

/-- Marking by a test asks the test once for every node, in the order of the nodes. -/
theorem run_markEach (graph : Graph) (test : Text → Bool) (asked : List Text) :
    (graph.markEach (MarkStep.recorded test)).run asked =
      (((graph.ordered.map Node.input).filter test).foldl markCompile graph,
        asked ++ graph.ordered.map Node.input) := by
  unfold markEach
  suffices hfold : ∀ (paths : List Text) (current : Graph) (asked : List Text),
      (paths.foldlM (fun (graph : Graph) path => do
          if ← MarkStep.recorded test path then pure (graph.markCompile path)
          else pure graph) current).run asked =
        ((paths.filter test).foldl markCompile current, asked ++ paths) from
    hfold (graph.ordered.map Node.input) graph asked
  intro paths
  induction paths with
  | nil =>
      intro current asked
      rw [List.append_nil]
      rfl
  | cons path rest ih =>
      intro current asked
      have hstep :
          (do
              if ← MarkStep.recorded test path then pure (current.markCompile path)
              else pure current : StateM (List Text) Graph).run asked =
            (if test path then current.markCompile path else current, asked ++ [path]) := by
        cases htest : test path <;> simp [MarkStep.recorded, htest] <;> rfl
      rw [List.foldlM_cons, StateT.run_bind, hstep]
      refine (ih _ (asked ++ [path])).trans ?_
      cases htest : test path <;> simp [htest]

variable {compiled checked : Text → Prop}

theorem MarkedAs.afterStep (hmarks : graph.MarkedAs compiled checked) (step : MarkStep)
    (asked : List Text) :
    ∃ next,
      (step.run graph).run asked =
          (next, asked ++ if step.isEach then graph.ordered.map Node.input else []) ∧
        next.unmarked = graph.unmarked ∧
        next.MarkedAs (fun path => step.Compiles path ∨ compiled path)
          (fun path => step.Checks path ∨ checked path) := by
  cases step with
  | compile named =>
      refine ⟨graph.markCompile named, ?_, unmarked_markCompile, ?_⟩
      · exact Prod.ext rfl (List.append_nil asked).symm
      · exact (hmarks.afterCompile named).congr (fun _ _ => Iff.rfl)
          (fun _ _ => (iff_of_eq (false_or _)).symm)
  | typecheck named =>
      refine ⟨graph.markTypecheck named, ?_, (markTypecheck_spread graph named).unmarked, ?_⟩
      · exact Prod.ext rfl (List.append_nil asked).symm
      · exact (hmarks.afterTypecheck named).congr (fun _ _ => (iff_of_eq (false_or _)).symm)
          (fun _ _ => Iff.rfl)
  | each test =>
      obtain ⟨hunmarked, hall⟩ :=
        hmarks.afterCompileAll ((graph.ordered.map Node.input).filter test)
      refine ⟨_, run_markEach graph test asked, hunmarked, ?_⟩
      refine hall.congr (fun path hpath => ?_) (fun _ _ => (iff_of_eq (false_or _)).symm)
      rw [inputs_eq_of_unmarked_eq hunmarked] at hpath
      rw [List.mem_filter, graph.perm_inputs_ordered.mem_iff, and_iff_right hpath]
      rfl

theorem MarkedAs.afterSteps (hmarks : graph.MarkedAs compiled checked)
    (steps : List MarkStep) (asked : List Text) :
    ∃ final,
      (graph.runMarks steps).run asked =
          (final, asked ++
            (steps.filter MarkStep.isEach).flatMap fun _ => graph.ordered.map Node.input) ∧
        final.unmarked = graph.unmarked ∧
        final.MarkedAs (fun path => CompileTarget steps path ∨ compiled path)
          (fun path => TypecheckTarget steps path ∨ checked path) := by
  induction steps generalizing graph compiled checked asked with
  | nil =>
      refine ⟨graph, ?_, rfl, ?_⟩
      · simp [runMarks]
        rfl
      · simpa [CompileTarget, TypecheckTarget] using hmarks
  | cons step rest ih =>
      obtain ⟨next, hstep, hnextUnmarked, hnext⟩ := hmarks.afterStep step asked
      obtain ⟨final, hrest, hfinalUnmarked, hfinal⟩ := ih hnext
        (asked ++ if step.isEach then graph.ordered.map Node.input else [])
      refine ⟨final, ?_, hfinalUnmarked.trans hnextUnmarked, ?_⟩
      · rw [inputs_ordered_eq_of_unmarked_eq hnextUnmarked] at hrest
        unfold runMarks at hrest ⊢
        rw [List.foldlM_cons, StateT.run_bind, hstep]
        refine hrest.trans ?_
        cases heach : step.isEach <;> simp [heach]
      · refine hfinal.congr (fun path _ => ?_) (fun path _ => ?_)
        · simp only [CompileTarget, List.mem_cons, exists_eq_or_imp]
          exact or_left_comm.trans or_assoc.symm
        · simp only [TypecheckTarget, List.mem_cons, exists_eq_or_imp]
          exact or_left_comm.trans or_assoc.symm

theorem MarkedAs.ofUnset (htransitive : graph.TransitiveDependents)
    (hunset : ∀ node ∈ graph.nodes, node.mark = .unset) :
    graph.MarkedAs (fun _ => False) (fun _ => False) := by
  have hmarkAt : ∀ path ∈ graph.inputs, graph.markAt path = some .unset := by
    intro path hpath
    obtain ⟨node, hnode, rfl⟩ := mem_inputs.1 hpath
    rw [markAt_input hnode, hunset node hnode]
  refine ⟨htransitive, ?_, ?_⟩
  · intro path hpath
    simp [hmarkAt path hpath]
  · intro path hpath
    simp [IsUnset, hmarkAt path hpath, Due]

/-- The mark of every node, in terms of the graph before it was marked. -/
theorem MarkedAs.mark_iff {final : Graph} (hmarks : final.MarkedAs compiled checked)
    (hunmarked : final.unmarked = graph.unmarked) {node : Node} (hnode : node ∈ final.nodes) :
    (node.mark = .compile ↔ compiled node.input) ∧
      (node.mark = .typecheck ↔
        ¬compiled node.input ∧
          (checked node.input ∨
            ∃ source ∈ graph.nodes,
              (compiled source.input ∨ checked source.input) ∧ node.input ∈ source.dependents)) ∧
      (node.mark = .unset ↔
        ¬compiled node.input ∧
          ¬(checked node.input ∨
            ∃ source ∈ graph.nodes,
              (compiled source.input ∨ checked source.input) ∧
                node.input ∈ source.dependents)) := by
  have hinput := input_mem_inputs hnode
  have hcompile := hmarks.compile_iff node.input hinput
  have hunset := hmarks.unset_iff node.input hinput
  rw [markAt_input hnode, Option.some_inj] at hcompile
  rw [IsUnset, markAt_input hnode, Option.some_inj, due_eq_of_unmarked_eq hunmarked, due_iff,
    or_assoc, not_or] at hunset
  exact ⟨hcompile, Mark.eq_typecheck_iff hcompile hunset, hunset⟩

/-- Whatever requests are made after the insertions, be it that some of these failed, in whatever
order and however often: a node is compiled when this was asked for, type-checked when it is not
compiled but was asked for or depends on a node that anything was asked for, and unset otherwise.
Nothing but marks changes, and every test is evaluated once for each node, in the order of the
nodes. -/
theorem Grown.marks_exact (hgraph : graph.Grown) (steps : List MarkStep) :
    ∃ final,
      (graph.runMarks steps).run [] =
          (final, (steps.filter MarkStep.isEach).flatMap fun _ =>
            graph.ordered.map Node.input) ∧
        (graph.ordered.map Node.input).Perm graph.inputs ∧
        final.unmarked = graph.unmarked ∧
        ∀ node ∈ final.nodes,
          (node.mark = .compile ↔ CompileTarget steps node.input) ∧
          (node.mark = .typecheck ↔
            ¬CompileTarget steps node.input ∧
              (TypecheckTarget steps node.input ∨
                ∃ source ∈ graph.nodes,
                  (CompileTarget steps source.input ∨ TypecheckTarget steps source.input) ∧
                    node.input ∈ source.dependents)) ∧
          (node.mark = .unset ↔
            ¬CompileTarget steps node.input ∧
              ¬(TypecheckTarget steps node.input ∨
                ∃ source ∈ graph.nodes,
                  (CompileTarget steps source.input ∨ TypecheckTarget steps source.input) ∧
                    node.input ∈ source.dependents)) := by
  have hstart := MarkedAs.ofUnset hgraph.transitiveDependents hgraph.mark_unset
  obtain ⟨final, hrun, hunmarked, hfinal⟩ := hstart.afterSteps steps []
  refine ⟨final, hrun, graph.perm_inputs_ordered, hunmarked, ?_⟩
  intro node hnode
  have hmark := hfinal.mark_iff hunmarked hnode
  simpa only [or_false] using hmark

/-- On the cycle of `a` and `b`, which `c` requires: `a` stays marked for a type check when a test
picks `b` afterwards. -/
theorem marks_exact_repaired :
    repaired.Grown ∧
      ∃ final asked,
        (repaired.runMarks [.typecheck "a.tl", .each (· == "b.tl")]).run [] = (final, asked) ∧
        ∃ first ∈ final.nodes, ∃ second ∈ final.nodes,
          first.input = "a.tl" ∧ first.mark = .typecheck ∧
          second.input = "b.tl" ∧ second.mark = .compile := by
  obtain ⟨final, hrun, _, hunmarked, hmarks⟩ :=
    inserted_repaired.grown.marks_exact [.typecheck "a.tl", .each (· == "b.tl")]
  have hinputs : final.inputs = (["c.tl", "a.tl", "b.tl"] : List Text) :=
    (inputs_eq_of_unmarked_eq hunmarked).trans inputs_repaired
  have hfirst : ("a.tl" : Text) ∈ final.inputs := by simp [hinputs]
  have hsecond : ("b.tl" : Text) ∈ final.inputs := by simp [hinputs]
  obtain ⟨first, hfirstNode, hfirstInput⟩ := mem_inputs.1 hfirst
  obtain ⟨second, hsecondNode, hsecondInput⟩ := mem_inputs.1 hsecond
  refine ⟨inserted_repaired.grown, final, _, hrun, first, hfirstNode, second, hsecondNode,
    hfirstInput, ?_, hsecondInput, ?_⟩
  · rw [(hmarks first hfirstNode).2.1, hfirstInput]
    simp [CompileTarget, TypecheckTarget, MarkStep.Compiles, MarkStep.Checks]
  · rw [(hmarks second hsecondNode).1, hsecondInput]
    simp [CompileTarget, MarkStep.Compiles]

end Graph

end Rebuild
