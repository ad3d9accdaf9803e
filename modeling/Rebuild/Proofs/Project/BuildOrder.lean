import Rebuild.Proofs.Project.Plan

/-!
# The order of a build

Marking leaves edges and dependents alone, so the graph of a plan is as closed and as free of cycles
as the graph of the project, and its nodes stand in the same order.  Leaving nodes out of that order
moves none past another.
-/

namespace Rebuild

namespace Graph

variable {graph final : Graph}

theorem exact_layered_of_unmarked_eq (hexact : graph.Exact) (hgood : ¬graph.IsCircular)
    (hunmarked : final.unmarked = graph.unmarked) : final.Exact ∧ final.Layered := by
  have hedge := edge_eq_of_unmarked_eq hunmarked
  have hfinal : final.Exact :=
    hexact.congr hedge (funext (dependentsAt_eq_of_unmarked_eq hunmarked))
  exact ⟨hfinal, hfinal.sound.layered ((isCircular_congr hedge).not.2 hgood)⟩

/-- Among the nodes with one mark, those that require a node stand behind it. -/
theorem mem_behind_marked (hexact : graph.Exact) (hlayered : graph.Layered) {mark : Mark}
    {before after : List Node} {node other : Node}
    (hlisted : graph.marked mark = before ++ node :: after) (hother : other ∈ graph.marked mark)
    (hrequires : Relation.TransGen graph.Edge other.input node.input) : other ∈ after := by
  have hnode : node ∈ graph.marked mark := by
    rw [hlisted]
    exact List.mem_append_right before List.mem_cons_self
  have hinput : ∀ listed ∈ graph.marked mark, listed.input ∈ graph.inputs :=
    fun listed hmem => input_mem_inputs (mem_marked.1 hmem).1
  exact hlayered.mem_behind (graph.pairwise_ordered.filter _) hlisted (hinput node hnode) hother
    (hinput other hother) ((hexact _ _).2 hrequires)

end Graph

namespace Workspace

variable {ws : Workspace} {config : Config} {files : List Text} {force : Bool} {plan : Plan}

theorem exists_marked_of_plan (hplan : (ws.plan config files force).value = .ok plan) :
    ∃ graph final, (ws.buildGraph config []).value = .ok graph ∧
      final.unmarked = graph.unmarked ∧ plan = .ofMarked final := by
  cases hgraph : (ws.buildGraph config []).value with
  | error failure =>
      unfold Workspace.plan at hplan
      dsimp only at hplan
      rw [hgraph] at hplan
      cases hplan
  | ok graph =>
      rw [value_plan hgraph] at hplan
      by_cases hknown : ws.unknownFiles graph files = []
      · rw [planGraph_of_known hknown] at hplan
        cases hmark : graph.markEach (ws.isChanged graph
            (.ofList (files.map ws.location.projectRelative)) force) with
        | error failure =>
            rw [hmark] at hplan
            cases hplan
        | ok final =>
            rw [hmark] at hplan
            cases hplan
            exact ⟨graph, final, rfl, Graph.unmarked_of_markEach hmark, rfl⟩
      · rw [planGraph_of_unknown hknown] at hplan
        cases hplan

/-- In a graph without cycles, even one that a failed insertion leaves, every node stands before all
its dependents, by its greater count; so in both lists of a plan every file stands before those that
require it. -/
theorem dependencies_stand_first :
    (∀ graph : Graph, graph.Grown → ¬graph.IsCircular →
      graph.ordered.Perm graph.nodes ∧
      (graph.ordered.Pairwise fun first second =>
        Graph.StandsBefore graph.dependentCounts first.input second.input) ∧
      ∀ before node after, graph.ordered = before ++ node :: after →
        ∀ dependent ∈ node.dependents, dependent ∈ after.map Node.input) ∧
    ∀ (ws : Workspace) (config : Config) (files : List Text) (force : Bool) (plan : Plan),
      (ws.plan config files force).value = .ok plan →
        ∀ listed ∈ [plan.compile, plan.typecheck],
          ∀ before node after, listed = before ++ node :: after →
            ∀ other ∈ listed, Relation.TransGen plan.graph.Edge other.input node.input →
              other ∈ after := by
  constructor
  · intro graph hgraph hgood
    refine ⟨graph.perm_nodes_ordered, graph.pairwise_ordered, ?_⟩
    intro before node after hordered dependent hdependent
    have hnode : node ∈ graph.nodes := by
      rw [← graph.perm_nodes_ordered.mem_iff, hordered]
      exact List.mem_append_right before List.mem_cons_self
    have hreaches : Relation.TransGen graph.Edge dependent node.input := by
      apply hgraph.sound node.input
      rwa [Graph.dependentsAt_input hnode]
    exact (hgraph.sound.layered hgood).mem_behind_ordered hordered hdependent
      (Graph.source_mem_of_transGen hreaches)
  · intro ws config files force plan hplan listed hmember before node after hlisted other hother
      hrequires
    obtain ⟨graph, final, hgraph, hunmarked, rfl⟩ := exists_marked_of_plan hplan
    have hproject := projected_of_buildGraph hgraph
    obtain ⟨hexact, hlayered⟩ :=
      Graph.exact_layered_of_unmarked_eq hproject.exact hproject.acyclic hunmarked
    have hmarked : ∃ mark, listed = final.marked mark := by
      rw [List.mem_pair] at hmember
      rcases hmember with rfl | rfl
      · exact ⟨.compile, rfl⟩
      · exact ⟨.typecheck, rfl⟩
    obtain ⟨mark, rfl⟩ := hmarked
    exact Graph.mem_behind_marked hexact hlayered hlisted hother hrequires

/-- Two files, the first of which requires the second. -/
def chain : Workspace where
  root := .file "a.tl" (textFile "require[[b]]") (.file "b.tl" (textFile "") .empty)
  rootModified := .ofSeconds 0 0
  location := []

theorem exists_plan_chain :
    ∃ plan, (chain.plan .default [] true).value = .ok plan ∧
      plan.compile.map Node.input = (["b.tl", "a.tl"] : List Text) ∧
      plan.graph.Edge "a.tl" "b.tl" := by
  have hshape :
      ((chain.plan .default [] true).value.toOption.map fun plan =>
          (plan.compile.map Node.input, plan.graph.edges, plan.graph.inputs)) =
        some ((["b.tl", "a.tl"] : List Text), [(("a.tl", "b.tl") : Text × Text)],
          (["a.tl", "b.tl"] : List Text)) := by
    decide +kernel
  obtain ⟨plan, hplan, hview⟩ := exists_ok_of_map_toOption hshape
  simp only [Prod.mk.injEq] at hview
  obtain ⟨hcompile, hedges, hinputs⟩ := hview
  refine ⟨plan, hplan, hcompile, ?_⟩
  rw [Graph.edge_iff_mem_edges, hedges, hinputs]
  simp

theorem dependencies_stand_first_chain :
    (Setting.pairFromTop.Grown ∧ ¬Setting.pairFromTop.IsCircular ∧
        Setting.pairFromTop.ordered.Perm Setting.pairFromTop.nodes) ∧
      ∃ plan before first after second, (chain.plan .default [] true).value = .ok plan ∧
        plan.compile = before ++ first :: after ∧ second ∈ after ∧
        first.input = ("b.tl" : Text) ∧ second.input = ("a.tl" : Text) := by
  have hgraph := Setting.reported_pairFromTop.built.1.inserted.grown
  have hgood := Setting.not_isCircular_pairFromTop
  refine ⟨⟨hgraph, hgood, (dependencies_stand_first.1 _ hgraph hgood).1⟩, ?_⟩
  obtain ⟨plan, hplan, hcompile, hedge⟩ := exists_plan_chain
  have hlisted : ∀ path ∈ (["b.tl", "a.tl"] : List Text),
      ∃ node ∈ plan.compile, node.input = path := by
    intro path hpath
    rw [← hcompile] at hpath
    exact List.mem_map.1 hpath
  obtain ⟨first, hfirst, hfirstInput⟩ := hlisted "b.tl" (by simp)
  obtain ⟨second, hsecond, hsecondInput⟩ := hlisted "a.tl" (by simp)
  obtain ⟨before, after, hlist⟩ := List.append_of_mem hfirst
  have hrequires : Relation.TransGen plan.graph.Edge second.input first.input := by
    rw [hfirstInput, hsecondInput]
    exact .single hedge
  have hbehind := dependencies_stand_first.2 chain .default [] true plan hplan plan.compile
    List.mem_cons_self before first after hlist second hsecond hrequires
  exact ⟨plan, before, first, after, second, hplan, hlist, hbehind, hfirstInput, hsecondInput⟩

end Workspace

end Rebuild
