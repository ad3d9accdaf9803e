import Rebuild.Proofs.Project.Scan
import Rebuild.Proofs.Graph.Confluence

/-!
# The graph that a project is built into

While a workspace does not change, its files and search directories always give the same answers.
So the graph of a project is one that insertions with fixed answers produce, closed, without cycles,
and with every output filled in; the outputs change neither edges nor dependents.
-/

namespace Rebuild

namespace Graph

variable {graph : Graph} {output : Text → Option Text}

theorem inputs_withOutputs : (graph.withOutputs output).inputs = graph.inputs :=
  inputs_map

theorem mem_nodes_withOutputs {node : Node} :
    node ∈ (graph.withOutputs output).nodes ↔
      ∃ old ∈ graph.nodes, { old with output := output old.input } = node :=
  List.mem_map

theorem dependentsAt_withOutputs :
    (graph.withOutputs output).dependentsAt = graph.dependentsAt := by
  funext path
  unfold dependentsAt withOutputs
  rw [get?_map]
  cases graph.get? path with
  | none => rfl
  | some node => rfl

theorem edge_withOutputs : (graph.withOutputs output).Edge = graph.Edge := by
  have hedges : (graph.withOutputs output).edges = graph.edges := by
    simp [edges, withOutputs, List.flatMap_map]
  funext source target
  rw [eq_iff_iff, edge_iff_mem_edges, edge_iff_mem_edges, hedges, inputs_withOutputs]

theorem edge_eq_of_unmarked_eq {first second : Graph}
    (hunmarked : first.unmarked = second.unmarked) : first.Edge = second.Edge := by
  have hedges (graph : Graph) :
      graph.edges = graph.unmarked.flatMap fun node =>
        node.modules.map fun pair => (node.input, pair.2) := by
    simp [edges, unmarked, List.flatMap_map]
  funext source target
  rw [eq_iff_iff, edge_iff_mem_edges, edge_iff_mem_edges, hedges, hedges, hunmarked,
    inputs_eq_of_unmarked_eq hunmarked]

theorem Exact.congr {first second : Graph} (hexact : first.Exact)
    (hedge : second.Edge = first.Edge) (hdependents : second.dependentsAt = first.dependentsAt) :
    second.Exact := by
  unfold Exact
  rw [hedge, hdependents]
  exact hexact

theorem isCircular_congr {first second : Graph} (hedge : first.Edge = second.Edge) :
    first.IsCircular ↔ second.IsCircular := by
  unfold IsCircular OnCycle
  rw [hedge]

end Graph

namespace Setting

variable {ε : Type} {setting : Setting ε} {roots : List Text} {graph : Graph}

theorem Built.unresolved_eq (hbuilt : setting.Built roots graph) {node : Node}
    (hnode : node ∈ graph.nodes) :
    node.unresolved = node.requires.filter fun reference =>
      (setting.lookup reference).isNone := by
  unfold Node.unresolved
  apply List.filter_congr
  intro reference hreference
  rw [Bool.eq_iff_iff, Bool.not_eq_true', ← Bool.not_eq_true, List.any_eq_true,
    (hbuilt.holds.described node hnode).modules]
  constructor
  · intro hnone
    cases hfound : setting.lookup reference with
    | none => rfl
    | some found =>
        refine (hnone ⟨(reference, setting.key found), ?_, beq_self_eq_true reference⟩).elim
        exact mem_recorded_iff.2 ⟨hreference, found, hfound, rfl⟩
  · rintro hnone ⟨⟨other, path⟩, hmem, hother⟩
    obtain ⟨_, found, hfound, _⟩ := mem_recorded_iff.1 hmem
    have heq : other = reference := beq_iff_eq.1 hother
    rw [heq] at hfound
    simp [hfound] at hnone

end Setting

namespace Workspace

variable {ws : Workspace} {dirs : SearchDirs} {scope : Option Text} {graph full : Graph}
  {roots files : List Text}

/-- The answers of a workspace that does not change. -/
def setting (ws : Workspace) (dirs : SearchDirs) (scope : Option Text) : Setting Failure where
  parse := ws.scan
  lookup reference := ws.resolve dirs reference true
  here := ws.location
  scope := scope

theorem answers_sources (ws : Workspace) (dirs : SearchDirs) (scope : Option Text) :
    (ws.setting dirs scope).Answers (ws.sources dirs) :=
  ⟨fun _ _ => rfl, fun _ _ => rfl⟩

theorem built_insertAll (hbuilt : (ws.setting dirs scope).Built roots graph)
    (hgood : ¬graph.IsCircular) (hfull : (ws.insertAll dirs scope graph files).value = .ok full) :
    (ws.setting dirs scope).Built (roots ++ files) full ∧ ¬full.IsCircular := by
  induction files generalizing roots graph with
  | nil =>
      cases hfull
      rw [List.append_nil]
      exact ⟨hbuilt, hgood⟩
  | cons file rest ih =>
      rw [insertAll] at hfull
      dsimp only at hfull
      split at hfull
      next hverdict =>
        have hnext : (ws.setting dirs scope).Built (roots ++ [file])
            (ws.insertFile dirs scope graph file).graph :=
          .insert hbuilt (ws.answers_sources dirs scope) ws.searchDepth file () hverdict
        have hcycles := Graph.cycles_insert hverdict
        rw [List.append_cons]
        exact ih hnext (hnext.inserted.exact.cycles_eq_nil_iff.1 hcycles) hfull
      next => cases hfull
      next => cases hfull
      next => cases hfull

/-- The files that a project is built from: the selected ones, or those named. -/
def rootFiles (ws : Workspace) (config : Config) (files : List Text) : List Text :=
  if files.isEmpty then ws.sourceFiles (config.projectDir ws.location) config.rules
  else files.map ws.location.projectRelative

/-- The answers a project is built with. -/
def projectSetting (ws : Workspace) (config : Config) : Setting Failure :=
  ws.setting (config.moduleSearch ws.location) (some (config.projectDir ws.location))

theorem value_buildGraph (ws : Workspace) (config : Config) (files : List Text) :
    (ws.buildGraph config files).value =
      (ws.insertAll (config.moduleSearch ws.location) (some (config.projectDir ws.location))
        .empty (ws.rootFiles config files)).value.map
          fun graph => graph.withOutputs (config.outputOf ws.location) := by
  unfold buildGraph rootFiles
  dsimp only
  split
  next => rw [value_scanGraph]
  next => rfl

/-- A project that is built has a closed graph without cycles, with the outputs filled in. -/
theorem exists_built_of_buildGraph {config : Config}
    (hgraph : (ws.buildGraph config files).value = .ok graph) :
    ∃ inner, (ws.projectSetting config).Built (ws.rootFiles config files) inner ∧
      ¬inner.IsCircular ∧ graph = inner.withOutputs (config.outputOf ws.location) := by
  rw [value_buildGraph] at hgraph
  cases hinner : (ws.insertAll (config.moduleSearch ws.location)
      (some (config.projectDir ws.location)) .empty (ws.rootFiles config files)).value with
  | error failure =>
      rw [hinner] at hgraph
      cases hgraph
  | ok inner =>
      rw [hinner] at hgraph
      cases hgraph
      obtain ⟨hbuilt, hgood⟩ := built_insertAll .empty Graph.not_isCircular_empty hinner
      rw [List.nil_append] at hbuilt
      exact ⟨inner, hbuilt, hgood, rfl⟩

theorem isSource_of_buildGraph {config : Config}
    (hgraph : (ws.buildGraph config files).value = .ok graph) {node : Node}
    (hnode : node ∈ graph.nodes) : Path.IsSource node.input := by
  obtain ⟨inner, hbuilt, _, rfl⟩ := exists_built_of_buildGraph hgraph
  apply hbuilt.isSource
  rw [← Graph.inputs_withOutputs]
  exact Graph.input_mem_inputs hnode

/-- A graph of a project, whatever it was built from. -/
structure Projected (ws : Workspace) (config : Config) (graph : Graph) : Prop where
  exact : graph.Exact
  acyclic : ¬graph.IsCircular
  unset : ∀ node ∈ graph.nodes, node.mark = .unset
  canonical : ∀ node ∈ graph.nodes, Path.canonical node.input = node.input
  scanned : ∀ node ∈ graph.nodes, ws.scan node.input = .refs node.requires
  output : ∀ node ∈ graph.nodes, node.output = config.outputOf ws.location node.input
  unresolved : ∀ node ∈ graph.nodes,
    node.unresolved = node.requires.filter fun reference =>
      (ws.resolve (config.moduleSearch ws.location) reference true).isNone

theorem projected_of_buildGraph {ws : Workspace} {config : Config} {files : List Text}
    {graph : Graph} (hgraph : (ws.buildGraph config files).value = .ok graph) :
    ws.Projected config graph := by
  obtain ⟨inner, hbuilt, hgood, rfl⟩ := exists_built_of_buildGraph hgraph
  have hexact := hbuilt.inserted.exact
  have hold : ∀ {P : Node → Prop},
      (∀ old ∈ inner.nodes, P { old with output := config.outputOf ws.location old.input }) →
        ∀ node ∈ (inner.withOutputs (config.outputOf ws.location)).nodes, P node := by
    intro P hinner node hnode
    obtain ⟨old, hmem, rfl⟩ := Graph.mem_nodes_withOutputs.1 hnode
    exact hinner old hmem
  exact {
    exact := hexact.congr Graph.edge_withOutputs Graph.dependentsAt_withOutputs
    acyclic := by rwa [Graph.isCircular_congr Graph.edge_withOutputs]
    unset := hold fun old hmem => hbuilt.inserted.grown.mark_unset old hmem
    canonical := hold fun old hmem => by
      have hinput := Graph.input_mem_inputs hmem
      exact hbuilt.canonical_input hinput
    scanned := hold fun old hmem => (hbuilt.holds.described old hmem).requires
    output := hold fun _ _ => rfl
    unresolved := hold fun old hmem => by
      have hunresolved := hbuilt.unresolved_eq hmem
      exact hunresolved }

end Workspace

end Rebuild
