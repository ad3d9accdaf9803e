import Rebuild.Project.Plan
import Rebuild.Proofs.Graph.Marking
import Rebuild.Proofs.Graph.Precedence
import Rebuild.Proofs.Project.Staleness

/-!
# Plans are exact

Planning asks for every node whether it has changed and marks on each yes.  Once every question has
an answer, the marks depend on the answers alone, not on the order in which they come; the two lists
of the plan are then read off the marks, in the order of the nodes.  A question without an answer
ends the planning with its failure.
-/

namespace Rebuild

namespace Graph

variable {ε : Type} {graph final : Graph} {test : Text → Except ε Bool} {changed : Node → Prop}

theorem markEach_eq_ok {answer : Text → Bool}
    (htest : ∀ path ∈ graph.inputs, test path = .ok (answer path)) :
    graph.markEach test =
      .ok (((graph.ordered.map Node.input).filter answer).foldl markCompile graph) := by
  unfold markEach
  suffices hfold : ∀ (paths : List Text) (current : Graph), (∀ path ∈ paths,
      path ∈ graph.inputs) →
      paths.foldlM (fun (graph : Graph) path => do
          if ← test path then pure (graph.markCompile path) else pure graph) current =
        .ok ((paths.filter answer).foldl markCompile current) from
    hfold _ graph fun path => graph.perm_inputs_ordered.mem_iff.1
  intro paths
  induction paths with
  | nil => exact fun _ _ => rfl
  | cons path rest ih =>
      intro current hpaths
      have hpath := htest path (hpaths path List.mem_cons_self)
      have hrest := fun next =>
        ih next fun other hother => hpaths other (List.mem_cons_of_mem path hother)
      rw [List.foldlM_cons, hpath]
      cases hanswer : answer path with
      | true =>
          rw [List.filter_cons_of_pos hanswer]
          exact hrest (current.markCompile path)
      | false =>
          rw [List.filter_cons_of_neg (Bool.not_eq_true _ ▸ hanswer)]
          exact hrest current

/-- One failing question is enough for the marking to fail, with the failure of some question. -/
theorem exists_markEach_eq_error
    (hfailing : ∃ path ∈ graph.inputs, ∃ failure, test path = .error failure) :
    ∃ path ∈ graph.inputs, ∃ failure, test path = .error failure ∧
      graph.markEach test = .error failure := by
  unfold markEach
  suffices hfold : ∀ (paths : List Text) (current : Graph),
      (∃ path ∈ paths, ∃ failure, test path = .error failure) →
      ∃ path ∈ paths, ∃ failure, test path = .error failure ∧
        paths.foldlM (fun (graph : Graph) path => do
          if ← test path then pure (graph.markCompile path) else pure graph) current =
            .error failure by
    simp only [← graph.perm_inputs_ordered.mem_iff] at hfailing ⊢
    exact hfold _ graph hfailing
  intro paths
  induction paths with
  | nil => exact fun _ ⟨_, hmem, _⟩ => (List.not_mem_nil hmem).elim
  | cons path rest ih =>
      rintro current ⟨other, hother, failure, hfailure⟩
      rw [List.foldlM_cons]
      cases hanswer : test path with
      | error first => exact ⟨path, List.mem_cons_self, first, hanswer, rfl⟩
      | ok answer =>
          have hrest : other ∈ rest := (List.mem_cons.1 hother).resolve_left fun heq => by
            rw [heq, hanswer] at hfailure
            cases hfailure
          obtain ⟨found, hfound, error, herror, hfold⟩ :=
            ih (bif answer then current.markCompile path else current) ⟨other, hrest, _, hfailure⟩
          refine ⟨found, List.mem_cons_of_mem path hfound, error, herror, ?_⟩
          cases answer with
          | true => exact hfold
          | false => exact hfold

/-- A marking that comes to its end has an answer for every node. -/
theorem exists_answer_of_markEach (hfinal : graph.markEach test = .ok final) :
    ∀ path ∈ graph.inputs, ∃ answer, test path = .ok answer := by
  intro path hpath
  cases hanswer : test path with
  | ok answer => exact ⟨answer, rfl⟩
  | error failure =>
      obtain ⟨_, _, _, _, hfailed⟩ := exists_markEach_eq_error ⟨path, hpath, failure, hanswer⟩
      cases hfinal.symm.trans hfailed

theorem unmarked_of_markEach (hfinal : graph.markEach test = .ok final) :
    final.unmarked = graph.unmarked := by
  unfold markEach at hfinal
  generalize graph.ordered.map Node.input = paths at hfinal
  induction paths generalizing graph with
  | nil =>
      cases hfinal
      rfl
  | cons path rest ih =>
      rw [List.foldlM_cons] at hfinal
      cases hanswer : test path with
      | error failure =>
          rw [hanswer] at hfinal
          cases hfinal
      | ok answer =>
          rw [hanswer] at hfinal
          cases answer with
          | true => exact (ih hfinal).trans unmarked_markCompile
          | false => exact ih hfinal

/-- With an answer for every node, exactly the changed nodes are requested to be compiled. -/
theorem exists_markEach (hexact : graph.Exact) (hunset : ∀ node ∈ graph.nodes, node.mark = .unset)
    (htest : ∀ node ∈ graph.nodes, ∃ answer : Bool,
      test node.input = .ok answer ∧ (answer = true ↔ changed node)) :
    ∃ final, graph.markEach test = .ok final ∧
      final.MarkedAs (fun path => ∃ node ∈ graph.nodes, changed node ∧ node.input = path)
        (fun _ => False) := by
  have hanswers : ∀ path ∈ graph.inputs, ∃ answer : Bool, test path = .ok answer ∧
      (answer = true ↔ ∃ node ∈ graph.nodes, changed node ∧ node.input = path) := by
    intro path hpath
    obtain ⟨node, hnode, rfl⟩ := mem_inputs.1 hpath
    obtain ⟨answer, hanswer, hiff⟩ := htest node hnode
    refine ⟨answer, hanswer, hiff.trans ⟨fun hchanged => ⟨node, hnode, hchanged, rfl⟩, ?_⟩⟩
    rintro ⟨other, hother, hchanged, hinput⟩
    exact eq_of_input_eq hother hnode hinput ▸ hchanged
  choose! answer hanswer hiff using hanswers
  have hstart := MarkedAs.ofUnset hexact.transitiveDependents hunset
  obtain ⟨hunmarked, hmarks⟩ :=
    hstart.afterCompileAll ((graph.ordered.map Node.input).filter answer)
  refine ⟨_, markEach_eq_ok hanswer, hmarks.congr ?_ fun _ _ => Iff.rfl⟩
  intro path hpath
  have hinput : path ∈ graph.inputs := inputs_eq_of_unmarked_eq hunmarked ▸ hpath
  rw [or_false, List.mem_filter, graph.perm_inputs_ordered.mem_iff, hiff path hinput]
  exact and_iff_right hinput

theorem mem_marked {node : Node} {mark : Mark} :
    node ∈ graph.marked mark ↔ node ∈ graph.nodes ∧ node.mark = mark := by
  unfold marked
  rw [List.mem_filter, graph.perm_nodes_ordered.mem_iff, decide_eq_true_iff]

/-- The nodes with one mark are those of the graph before for which the mark is due. -/
theorem mem_marked_iff (hunmarked : final.unmarked = graph.unmarked) {mark : Mark}
    {due : Node → Prop}
    (hdue : ∀ node ∈ final.nodes, ∀ old ∈ graph.nodes, node.input = old.input →
      (node.mark = mark ↔ due old)) {node : Node} :
    node ∈ final.marked mark ↔ ∃ old ∈ graph.nodes, due old ∧ node = { old with mark } := by
  rw [mem_marked]
  constructor
  · rintro ⟨hnode, rfl⟩
    have hmem : { node with mark := Mark.unset } ∈ graph.unmarked := by
      rw [← hunmarked]
      exact List.mem_map_of_mem hnode
    obtain ⟨old, hold, heq⟩ := List.mem_map.1 hmem
    have hinput : old.input = node.input := by injection heq
    refine ⟨old, hold, (hdue node hnode old hold hinput.symm).1 rfl, ?_⟩
    cases node
    cases old
    cases heq
    rfl
  · rintro ⟨old, hold, hdueOld, rfl⟩
    have hmem : { old with mark := Mark.unset } ∈ final.unmarked := by
      rw [hunmarked]
      exact List.mem_map_of_mem hold
    obtain ⟨node, hnode, heq⟩ := List.mem_map.1 hmem
    have hinput : node.input = old.input := by injection heq
    have hmark := (hdue node hnode old hold hinput).2 hdueOld
    have hsame : node = { old with mark } := by
      cases node
      cases old
      cases heq
      cases hmark
      rfl
    exact ⟨hsame ▸ hnode, rfl⟩

end Graph

namespace Plan

/-- A plan that does with the nodes of a graph what is due when some of them have changed: no more,
no less, and in the order of the nodes. -/
structure Settles (plan : Plan) (graph : Graph) (changed : Node → Prop) : Prop where
  unmarked : plan.graph.unmarked = graph.unmarked
  ordered : plan.graph.ordered.map Node.input = graph.ordered.map Node.input
  compile : ∀ node, node ∈ plan.compile ↔
    ∃ old ∈ graph.nodes, changed old ∧ node = { old with mark := .compile }
  typecheck : ∀ node, node ∈ plan.typecheck ↔
    ∃ old ∈ graph.nodes,
      (¬changed old ∧ ∃ source ∈ graph.nodes, changed source ∧ old.input ∈ source.dependents) ∧
        node = { old with mark := .typecheck }
  rest : ∀ node ∈ plan.graph.nodes, node ∉ plan.compile → node ∉ plan.typecheck →
    node.mark = .unset
  compile_sublist : plan.compile.Sublist plan.graph.ordered
  typecheck_sublist : plan.typecheck.Sublist plan.graph.ordered
  disjoint : (plan.compile.map Node.input).Disjoint (plan.typecheck.map Node.input)

variable {graph final : Graph} {changed : Node → Prop}

theorem settles_ofMarked (hunmarked : final.unmarked = graph.unmarked)
    (hmarks : final.MarkedAs (fun path => ∃ node ∈ graph.nodes, changed node ∧ node.input = path)
      (fun _ => False)) : (ofMarked final).Settles graph changed := by
  have hchanged : ∀ old ∈ graph.nodes,
      ((∃ node ∈ graph.nodes, changed node ∧ node.input = old.input) ↔ changed old) := by
    intro old hold
    refine ⟨?_, fun h => ⟨old, hold, h, rfl⟩⟩
    rintro ⟨node, hnode, h, hinput⟩
    exact Graph.eq_of_input_eq hnode hold hinput ▸ h
  have hsources (path : Text) :
      (∃ source ∈ graph.nodes,
          ((∃ node ∈ graph.nodes, changed node ∧ node.input = source.input) ∨ False) ∧
            path ∈ source.dependents) ↔
        ∃ source ∈ graph.nodes, changed source ∧ path ∈ source.dependents := by
    refine exists_congr fun source => and_congr_right fun hsource => ?_
    rw [or_false, hchanged source hsource]
  have hmark : ∀ node ∈ final.nodes, _ := fun node hnode => hmarks.mark_iff hunmarked hnode
  exact {
    unmarked := hunmarked
    ordered := Graph.inputs_ordered_eq_of_unmarked_eq hunmarked
    compile := fun node => by
      apply Graph.mem_marked_iff hunmarked
      intro node hnode old hold hinput
      rw [(hmark node hnode).1, hinput, hchanged old hold]
    typecheck := fun node => by
      apply Graph.mem_marked_iff hunmarked
      intro node hnode old hold hinput
      rw [(hmark node hnode).2.1, hinput, hchanged old hold, hsources, false_or]
    rest := fun node hnode hcompile htypecheck => by
      cases hmark : node.mark with
      | unset => rfl
      | typecheck => exact (htypecheck (Graph.mem_marked.2 ⟨hnode, hmark⟩)).elim
      | compile => exact (hcompile (Graph.mem_marked.2 ⟨hnode, hmark⟩)).elim
    compile_sublist := List.filter_sublist
    typecheck_sublist := List.filter_sublist
    disjoint := by
      intro path hcompile htypecheck
      obtain ⟨first, hfirst, rfl⟩ := List.mem_map.1 hcompile
      obtain ⟨second, hsecond, hinput⟩ := List.mem_map.1 htypecheck
      obtain ⟨hfirst, hfirstMark⟩ := Graph.mem_marked.1 hfirst
      obtain ⟨hsecond, hsecondMark⟩ := Graph.mem_marked.1 hsecond
      rw [Graph.eq_of_input_eq hsecond hfirst hinput, hfirstMark] at hsecondMark
      cases hsecondMark }

theorem mem_unresolved_ofMarked (hunmarked : final.unmarked = graph.unmarked) {path : Text}
    {references : List Text} :
    (path, references) ∈ (ofMarked final).unresolved ↔
      references ≠ [] ∧
        ∃ node ∈ graph.nodes, node.input = path ∧ node.unresolved = references := by
  have hlist (graph : Graph) :
      (ofMarked graph).unresolved =
        (graph.unmarked.filter fun node => !node.unresolved.isEmpty).map fun node =>
          (node.input, node.unresolved) := by
    simp [ofMarked, Graph.unmarked, List.filter_map, Function.comp_def, Node.unresolved]
  rw [hlist, hunmarked, ← hlist]
  simp only [ofMarked, List.mem_map, List.mem_filter, Prod.mk.injEq]
  constructor
  · rintro ⟨node, ⟨hnode, hsome⟩, rfl, rfl⟩
    exact ⟨by simpa using hsome, node, hnode, rfl, rfl⟩
  · rintro ⟨hsome, node, hnode, rfl, rfl⟩
    exact ⟨node, ⟨hnode, by simpa using hsome⟩, rfl, rfl⟩

theorem nodup_unresolved_ofMarked (graph : Graph) :
    ((ofMarked graph).unresolved.map Prod.fst).Nodup := by
  have hinputs :
      (ofMarked graph).unresolved.map Prod.fst =
        (graph.nodes.filter fun node => !node.unresolved.isEmpty).map Node.input := by
    simp [ofMarked]
  rw [hinputs]
  exact graph.distinct.sublist (List.filter_sublist.map Node.input)

end Plan

namespace Workspace

variable {ws : Workspace} {config : Config} {graph : Graph} {files : List Text} {force : Bool}

/-- What counts as a change of a node: anything when forced, else being selected, else, when no
file is selected at all, being stale. -/
def Changed (ws : Workspace) (graph : Graph) (selected : List Text) (force : Bool)
    (node : Node) : Prop :=
  force = true ∨ node.input ∈ selected ∨
    selected = [] ∧ ws.needsCompile (some graph) node = .ok true

theorem Projected.find?_input (hgraph : ws.Projected config graph) {node : Node}
    (hnode : node ∈ graph.nodes) : graph.find? node.input = some node := by
  unfold Graph.find?
  rw [hgraph.canonical node hnode, Graph.get?_input hnode]

/-- Whether a plan can be made without an output that is refused: no times are asked for, or every
output has one or none. -/
def Decided (graph : Graph) (selected : List Text) (force : Bool) : Prop :=
  force = true ∨ selected ≠ [] ∨ graph.OutputsAskable

theorem isChanged_of_unselected (hgraph : ws.Projected config graph) {node : Node}
    (hnode : node ∈ graph.nodes) :
    ws.isChanged graph (.ofList []) false node.input = ws.needsCompile (some graph) node := by
  have hempty : (PathSet.ofList []).toList.isEmpty = true := by decide +kernel
  unfold isChanged
  rw [if_neg Bool.false_ne_true, if_pos hempty, hgraph.find?_input hnode]

theorem Projected.exists_isChanged (hgraph : ws.Projected config graph) {selected : List Text}
    (hdecided : Decided graph selected force) {node : Node} (hnode : node ∈ graph.nodes) :
    ∃ answer : Bool,
      ws.isChanged graph (.ofList selected) force node.input = .ok answer ∧
        (answer = true ↔ ws.Changed graph selected force node) := by
  unfold Changed
  cases force with
  | true => exact ⟨true, rfl, by simp⟩
  | false =>
      by_cases hnone : selected = []
      · subst hnone
        have hask := (hdecided.resolve_left Bool.false_ne_true).resolve_left fun hne => hne rfl
        obtain ⟨stale, hstale⟩ := hgraph.exists_needsCompile_of_askable hask hnode
        refine ⟨stale, (isChanged_of_unselected hgraph hnode).trans hstale, by simp [hstale]⟩
      · unfold isChanged
        rw [if_neg Bool.false_ne_true]
        obtain ⟨path, hpath⟩ := List.exists_mem_of_ne_nil selected hnone
        have hmem : path ∈ PathSet.ofList selected := PathSet.mem_ofList.2 hpath
        have hsome : ¬(PathSet.ofList selected).toList.isEmpty = true := by
          rw [List.isEmpty_iff]
          exact List.ne_nil_of_mem hmem
        refine ⟨decide (node.input ∈ PathSet.ofList selected), if_neg hsome, ?_⟩
        simp [PathSet.mem_ofList, hnone]

theorem value_plan (hgraph : (ws.buildGraph config []).value = .ok graph) :
    (ws.plan config files force).value = ws.planGraph graph files force := by
  unfold plan
  dsimp only
  rw [hgraph]
  cases hplan : ws.planGraph graph files force with
  | error failure => simp [hplan]
  | ok plan => simp [hplan]

/-- Without a graph, planning ends as the building of the graph does. -/
theorem plan_of_error {failure : Failure}
    (hgraph : (ws.buildGraph config []).value = .error failure) :
    ws.plan config files force = ⟨(ws.buildGraph config []).log, .error failure⟩ := by
  unfold plan
  dsimp only
  rw [hgraph]

/-- The selected paths that are not nodes, in increasing order. -/
def unknownFiles (ws : Workspace) (graph : Graph) (files : List Text) : List Text :=
  (PathSet.ofList (files.map ws.location.projectRelative)).toList.filter fun path =>
    !graph.contains path

theorem mem_unknownFiles {path : Text} :
    path ∈ ws.unknownFiles graph files ↔
      path ∈ files.map ws.location.projectRelative ∧ path ∉ graph.inputs := by
  rw [unknownFiles, List.mem_filter, ← PathSet.mem_def, PathSet.mem_ofList]
  refine and_congr_right fun hpath => ?_
  -- a selected path is canonical already, so it is looked up as it stands
  obtain ⟨file, _, rfl⟩ := List.mem_map.1 hpath
  rw [Graph.contains, Graph.find?, Location.canonical_projectRelative, Bool.not_eq_true',
    Option.isSome_eq_false_iff, Option.isNone_iff_eq_none, Graph.get?_eq_none_iff]

theorem unknownFiles_eq_nil_iff :
    ws.unknownFiles graph files = [] ↔
      ∀ path ∈ files.map ws.location.projectRelative, path ∈ graph.inputs := by
  simp only [List.eq_nil_iff_forall_not_mem, mem_unknownFiles, not_and, not_not]

theorem planGraph_of_unknown (hunknown : ws.unknownFiles graph files ≠ []) :
    ws.planGraph graph files force = .error (.unknownFiles (ws.unknownFiles graph files)) :=
  if_neg fun hnone => hunknown (List.isEmpty_iff.1 hnone)

theorem planGraph_of_known (hknown : ws.unknownFiles graph files = []) :
    ws.planGraph graph files force =
      (graph.markEach (ws.isChanged graph
        (.ofList (files.map ws.location.projectRelative)) force)).map Plan.ofMarked :=
  if_pos (List.isEmpty_iff.2 hknown)

theorem Projected.exists_planGraph (hgraph : ws.Projected config graph)
    (hknown : ∀ path ∈ files.map ws.location.projectRelative, path ∈ graph.inputs)
    (hdecided : Decided graph (files.map ws.location.projectRelative) force) :
    ∃ final, ws.planGraph graph files force = .ok (.ofMarked final) ∧
      final.unmarked = graph.unmarked ∧
      (Plan.ofMarked final).Settles graph
        (ws.Changed graph (files.map ws.location.projectRelative) force) := by
  obtain ⟨final, hfinal, hmarks⟩ := Graph.exists_markEach hgraph.exact hgraph.unset
    fun node hnode => hgraph.exists_isChanged hdecided hnode
  have hunmarked := Graph.unmarked_of_markEach hfinal
  refine ⟨final, ?_, hunmarked, Plan.settles_ofMarked hunmarked hmarks⟩
  rw [planGraph_of_known (unknownFiles_eq_nil_iff.2 hknown), hfinal]
  rfl

/-- When times are needed and some output is refused, planning fails with such a refusal. -/
theorem Projected.exists_planGraph_eq_error (hgraph : ws.Projected config graph)
    (hknown : ∀ path ∈ files.map ws.location.projectRelative, path ∈ graph.inputs)
    (hundecided : ¬Decided graph (files.map ws.location.projectRelative) force) :
    ∃ failure, ws.planGraph graph files force = .error failure ∧ graph.RefusesOutput failure := by
  rw [planGraph_of_known (unknownFiles_eq_nil_iff.2 hknown)]
  generalize files.map ws.location.projectRelative = selected at hundecided
  unfold Decided at hundecided
  push Not at hundecided
  obtain ⟨hforce, rfl, hrefused⟩ := hundecided
  rw [ne_eq, Bool.not_eq_true] at hforce
  subst hforce
  obtain ⟨node, hnode, output, refused, houtput, hrefusal⟩ :=
    Graph.exists_refused_of_not_outputsAskable hrefused
  have hfailing : ∃ path ∈ graph.inputs, ∃ failure,
      ws.isChanged graph (.ofList []) false path = .error failure :=
    ⟨node.input, Graph.mem_inputs.2 ⟨node, hnode, rfl⟩, _,
      (isChanged_of_unselected hgraph hnode).trans (needsCompile_of_refusal houtput hrefusal)⟩
  obtain ⟨path, hpath, failure, hfailure, hmark⟩ := Graph.exists_markEach_eq_error hfailing
  obtain ⟨other, hother, rfl⟩ := Graph.mem_inputs.1 hpath
  rw [isChanged_of_unselected hgraph hother] at hfailure
  exact ⟨failure, by rw [hmark]; rfl, hgraph.refusesOutput_of_needsCompile hother hfailure⟩

/-- When some selected paths are not nodes, planning fails with exactly these, in increasing order.
Otherwise it gives a plan that does what is due for the changed nodes, with the references of every
node that do not resolve; unless the times of the outputs are needed and an output is refused, when
it fails with that refusal.  No output is, if the working directory and the build directory can be
asked for. -/
theorem plan_exact (hgraph : (ws.buildGraph config []).value = .ok graph) (files : List Text)
    (force : Bool) :
    let selected := files.map ws.location.projectRelative
    let unresolved (node : Node) := node.requires.filter fun reference =>
      (ws.resolve (config.moduleSearch ws.location) reference true).isNone
    ((∃ path ∈ selected, path ∉ graph.inputs) →
      ∃ unknown, (ws.plan config files force).value = .error (.unknownFiles unknown) ∧
        unknown.Pairwise (· < ·) ∧
        ∀ path, path ∈ unknown ↔ path ∈ selected ∧ path ∉ graph.inputs) ∧
    ((∀ path ∈ selected, path ∈ graph.inputs) → Decided graph selected force →
      ∃ plan, (ws.plan config files force).value = .ok plan ∧
        plan.Settles graph (ws.Changed graph selected force) ∧
        (plan.unresolved.map Prod.fst).Nodup ∧
        ∀ path references, (path, references) ∈ plan.unresolved ↔
          references ≠ [] ∧
            ∃ node ∈ graph.nodes, node.input = path ∧ unresolved node = references) ∧
    ((∀ path ∈ selected, path ∈ graph.inputs) → ¬Decided graph selected force →
      ∃ failure, (ws.plan config files force).value = .error failure ∧
        graph.RefusesOutput failure) ∧
    ((∀ name ∈ ws.location, Askable name) →
      (∀ buildDir, config.buildDir = some buildDir → Askable buildDir) →
      Decided graph selected force) := by
  intro selected unresolved
  have hproject := projected_of_buildGraph hgraph
  rw [value_plan hgraph]
  refine ⟨?_, ?_, fun hknown => hproject.exists_planGraph_eq_error hknown, fun hhere hbuild =>
    .inr (.inr (hproject.outputsAskable hhere hbuild))⟩
  · rintro ⟨path, hpath⟩
    have hunknown : ws.unknownFiles graph files ≠ [] :=
      List.ne_nil_of_mem (mem_unknownFiles.2 hpath)
    exact ⟨_, planGraph_of_unknown hunknown, (PathSet.ofList selected).increasing.filter _,
      fun _ => mem_unknownFiles⟩
  · intro hknown hdecided
    obtain ⟨final, hplan, hunmarked, hsettles⟩ := hproject.exists_planGraph hknown hdecided
    refine ⟨.ofMarked final, hplan, hsettles, Plan.nodup_unresolved_ofMarked final,
      fun path references => ?_⟩
    rw [Plan.mem_unresolved_ofMarked hunmarked]
    refine and_congr_right fun _ => exists_congr fun node => and_congr_right fun hnode => ?_
    rw [hproject.unresolved node hnode]

theorem exists_ok_of_map_toOption {ε α β : Type} {result : Except ε α} {view : α → β} {seen : β}
    (hseen : result.toOption.map view = some seen) :
    ∃ value, result = .ok value ∧ view value = seen := by
  cases result with
  | error failure => cases hseen
  | ok value => exact ⟨value, rfl, Option.some_inj.1 hseen⟩

/-- A file that has been built, and one that it requires and that has not. -/
def halfBuilt : Workspace where
  root := .file "a.tl" (textFile "require[[b]]") (.file "a.lua" (textFile "")
    (.file "b.tl" (textFile "") .empty))
  rootModified := .ofSeconds 0 0
  location := []

theorem exists_plan_halfBuilt :
    ∃ plan, (halfBuilt.plan .default [] false).value = .ok plan ∧
      (plan.compile.map Node.output, plan.typecheck.map Node.input) =
        ([some ("b.lua" : Text)], [("a.tl" : Text)]) :=
  exists_ok_of_map_toOption (by decide +kernel)

theorem exists_buildGraph_halfBuilt :
    ∃ graph, (halfBuilt.buildGraph .default []).value = .ok graph ∧
      graph.inputs = (["a.tl", "b.tl"] : List Text) :=
  exists_ok_of_map_toOption (by decide +kernel)

theorem plan_exact_halfBuilt :
    ∃ graph, (halfBuilt.buildGraph .default []).value = .ok graph ∧
      (∃ plan, (halfBuilt.plan .default [] false).value = .ok plan ∧
        plan.Settles graph (halfBuilt.Changed graph [] false) ∧
        plan.compile.map Node.output = [some ("b.lua" : Text)] ∧
        plan.typecheck.map Node.input = (["a.tl"] : List Text)) ∧
      (∃ plan, (halfBuilt.plan .default ["./a.tl"] false).value = .ok plan ∧
        plan.Settles graph (halfBuilt.Changed graph ["a.tl"] false)) ∧
      ∃ unknown, (halfBuilt.plan .default ["b.tl", "c.tl"] true).value =
          .error (.unknownFiles unknown) ∧
        ∀ path, path ∈ unknown ↔ path ∈ (["b.tl", "c.tl"] : List Text) ∧ path ∉ graph.inputs := by
  obtain ⟨graph, hgraph, hinputs⟩ := exists_buildGraph_halfBuilt
  obtain ⟨stalePlan, hstalePlan, hseen⟩ := exists_plan_halfBuilt
  obtain ⟨hcompile, htypecheck⟩ := Prod.mk.inj hseen
  have hknown : (["./a.tl"] : List Text).map halfBuilt.location.projectRelative =
      (["a.tl"] : List Text) := by decide +kernel
  have hsome : (["b.tl", "c.tl"] : List Text).map halfBuilt.location.projectRelative =
      (["b.tl", "c.tl"] : List Text) := by decide +kernel
  have hstale := plan_exact hgraph [] false
  have hnamed := plan_exact hgraph ["./a.tl"] false
  have hforced := plan_exact hgraph ["b.tl", "c.tl"] true
  rw [hknown] at hnamed
  rw [hsome] at hforced
  obtain ⟨plan, hvalue, hsettles, _⟩ := hstale.2.1 nofun (hstale.2.2.2 nofun nofun)
  obtain rfl := Except.ok.inj (hstalePlan.symm.trans hvalue)
  obtain ⟨named, hvalueNamed, hsettlesNamed, _⟩ :=
    hnamed.2.1 (by simp [hinputs]) (hnamed.2.2.2 nofun nofun)
  obtain ⟨unknown, hvalueForced, _, hunknown⟩ := hforced.1 (by simp [hinputs])
  exact ⟨graph, hgraph, ⟨_, hvalue, hsettles, hcompile, htypecheck⟩,
    ⟨named, hvalueNamed, hsettlesNamed⟩, unknown, hvalueForced, hunknown⟩

end Workspace

end Rebuild
