import Rebuild.Proofs.Project.Plan
import Rebuild.Proofs.Project.Rebuilding

/-!
# When a build leaves nothing to do

Carrying out a plan writes the outputs of the files to compile.  These are fresh then, and stay so.
A declaration file has no output: it is stale as long as the output of a file that depends on it is
older, and a file that depends on it but is only type-checked keeps its output.  Nothing else is
left to do.
-/

namespace Rebuild

namespace Workspace

variable {ws : Workspace} {config : Config} {graph : Graph} {plan : Plan} {node : Node}

/-! ## Plans without named files -/

theorem planGraph_nil (ws : Workspace) (graph : Graph) :
    ws.planGraph graph [] false =
      (graph.markEach (ws.isChanged graph (.ofList []) false)).map Plan.ofMarked :=
  planGraph_of_known (unknownFiles_eq_nil_iff.2 (by simp))

/-- When staleness is decided everywhere there is a plan, which settles what is stale. -/
theorem exists_plan_of_decided (hgraph : (ws.buildGraph config []).value = .ok graph)
    (hdecided : ∀ node ∈ graph.nodes, ∃ stale, ws.needsCompile (some graph) node = .ok stale) :
    ∃ plan, (ws.plan config [] false).value = .ok plan ∧
      plan.Settles graph fun node => ws.needsCompile (some graph) node = .ok true := by
  have hproject := projected_of_buildGraph hgraph
  have hanswers : ∀ node ∈ graph.nodes, ∃ answer : Bool,
      ws.isChanged graph (.ofList []) false node.input = .ok answer ∧
        (answer = true ↔ ws.needsCompile (some graph) node = .ok true) := by
    intro node hnode
    obtain ⟨stale, hstale⟩ := hdecided node hnode
    refine ⟨stale, (isChanged_of_unselected hproject hnode).trans hstale, ?_⟩
    simp [hstale]
  obtain ⟨final, hfinal, hmarks⟩ :=
    Graph.exists_markEach hproject.exact hproject.unset hanswers
  refine ⟨.ofMarked final, ?_, Plan.settles_ofMarked (Graph.unmarked_of_markEach hfinal) hmarks⟩
  rw [value_plan hgraph, planGraph_nil, hfinal]
  rfl

theorem exists_settles_of_plan (hplan : (ws.plan config [] false).value = .ok plan) :
    ∃ graph, (ws.buildGraph config []).value = .ok graph ∧
      (∀ node ∈ graph.nodes, ∃ stale, ws.needsCompile (some graph) node = .ok stale) ∧
      plan.Settles graph fun node => ws.needsCompile (some graph) node = .ok true := by
  cases hgraph : (ws.buildGraph config []).value with
  | error failure =>
      rw [plan_of_error hgraph] at hplan
      cases hplan
  | ok graph =>
      have hproject := projected_of_buildGraph hgraph
      have hdecided : ∀ node ∈ graph.nodes,
          ∃ stale, ws.needsCompile (some graph) node = .ok stale := by
        intro node hnode
        have hmarked := hplan
        rw [value_plan hgraph, planGraph_nil] at hmarked
        cases hfinal : graph.markEach (ws.isChanged graph (.ofList []) false) with
        | error failure =>
            rw [hfinal] at hmarked
            cases hmarked
        | ok final =>
            obtain ⟨answer, hanswer⟩ :=
              Graph.exists_answer_of_markEach hfinal _ (Graph.input_mem_inputs hnode)
            exact ⟨answer, (isChanged_of_unselected hproject hnode).symm.trans hanswer⟩
      obtain ⟨other, hother, hsettles⟩ := exists_plan_of_decided hgraph hdecided
      cases hplan.symm.trans hother
      exact ⟨graph, rfl, hdecided, hsettles⟩

end Workspace

/-! ## Times of written files -/

theorem Entry.Keeps.time_eq {old now : Entry} (hkeeps : old.Keeps now) : now.time = old.time := by
  cases old with
  | file =>
      cases hkeeps
      rfl
  | folder =>
      obtain ⟨inner, rfl⟩ := hkeeps
      rfl

namespace Workspace.WroteOutputs

variable {before after : Workspace} {places : List (List Text × File)} {text : Text}
  {time : Timestamp}

theorem modified_kept (hwrote : WroteOutputs before after places)
    (htext : Path.canonical text = text) (hnot : before.namesOf text ∉ places.map Prod.fst)
    (htime : before.modified text = .ok time) : after.modified text = .ok time := by
  obtain ⟨hfree, entry, hlocate, rfl⟩ := modified_eq_ok_iff.1 htime
  obtain ⟨now, hnow, hkeeps⟩ := hwrote.locate_kept htext hnot hlocate
  exact modified_eq_ok_iff.2 ⟨hfree, now, hnow, hkeeps.time_eq⟩

theorem exists_modified_written (hwrote : WroteOutputs before after places)
    (htext : Path.canonical text = text) (hask : Askable text)
    (hplace : before.namesOf text ∈ places.map Prod.fst) :
    ∃ place ∈ places, after.modified text = .ok place.2.modified := by
  obtain ⟨place, hplace, heq⟩ := List.mem_map.1 hplace
  obtain ⟨file, hfile, hnow⟩ := hwrote.wrote.written place hplace
  rw [heq, ← hwrote.locate_after htext] at hnow
  exact ⟨(place.1, file), hfile, modified_eq_ok_iff.2 ⟨hask, .file file, hnow, rfl⟩⟩

end Workspace.WroteOutputs

/-! ## A plan that is carried out -/

/-- Carrying out a plan writes the outputs of the files to compile and nothing else, none of them
with a time before that of a file that is there. -/
structure Plan.CarriedOut (plan : Plan) (before : Workspace) (built : List (Text × File))
    (after : Workspace) : Prop where
  outputs : ∀ text, text ∈ built.map Prod.fst ↔ ∃ node ∈ plan.compile, node.output = some text
  latest : ∀ pair ∈ built, ∀ file ∈ before.root.allFiles,
    pair.2.modified.isBefore file.modified = false
  writes : built.foldlM (fun ws pair => ws.write pair.1 pair.2) before = .ok after

namespace Plan

variable {plan : Plan} {graph : Graph} {changed : Node → Prop} {node : Node}
  {before after : Workspace} {built : List (Text × File)}

theorem carriedOut_nil (hnone : ∀ node ∈ plan.compile, node.output = none) :
    plan.CarriedOut before [] before where
  outputs text := by
    refine iff_of_false List.not_mem_nil ?_
    rintro ⟨node, hnode, houtput⟩
    rw [hnone node hnode] at houtput
    cases houtput
  latest := by simp
  writes := rfl

/-- Without outputs there is nothing to carry out. -/
theorem CarriedOut.eq (hdone : plan.CarriedOut before built after)
    (hnone : ∀ node ∈ plan.compile, node.output = none) : before = after := by
  have hbuilt : built = [] := by
    refine List.eq_nil_iff_forall_not_mem.2 fun pair hpair => ?_
    obtain ⟨node, hnode, houtput⟩ := (hdone.outputs pair.1).1 (List.mem_map_of_mem hpair)
    rw [hnone node hnode] at houtput
    cases houtput
  have hwrites := hdone.writes
  rw [hbuilt] at hwrites
  exact Except.ok.inj hwrites

theorem Settles.exists_source (hsettles : plan.Settles graph changed)
    (hnode : node ∈ plan.typecheck) :
    ∃ source ∈ plan.compile, node.input ∈ source.dependents := by
  obtain ⟨old, _, ⟨_, source, hsource, hchanged, hmem⟩, rfl⟩ := (hsettles.typecheck node).1 hnode
  exact ⟨_, (hsettles.compile _).2 ⟨source, hsource, hchanged, rfl⟩, hmem⟩

theorem Settles.compile_eq_nil (hsettles : plan.Settles graph changed)
    (hnone : ∀ node ∈ graph.nodes, ¬changed node) : plan.compile = [] := by
  refine List.eq_nil_iff_forall_not_mem.2 fun node hnode => ?_
  obtain ⟨old, hold, hchanged, _⟩ := (hsettles.compile node).1 hnode
  exact hnone old hold hchanged

theorem isEmpty_of_compile_eq_nil
    (htypecheck : ∀ node ∈ plan.typecheck, ∃ source ∈ plan.compile,
      node.input ∈ source.dependents) (hcompile : plan.compile = []) : plan.isEmpty = true := by
  have hnone : plan.typecheck = [] := by
    refine List.eq_nil_iff_forall_not_mem.2 fun node hnode => ?_
    obtain ⟨source, hsource, _⟩ := htypecheck node hnode
    rw [hcompile] at hsource
    exact List.not_mem_nil hsource
  rw [isEmpty, hcompile, hnone]
  rfl

end Plan

namespace Workspace

variable {ws before after : Workspace} {config : Config} {graph next : Graph} {plan : Plan}
  {places : List (List Text × File)} {node old : Node} {output : Text}
  {built changed : Timestamp}

/-- A declaration file that is newer than an output the plan leaves as it is: that of a file which
depends on it and is only type-checked. -/
def LeftOver (ws : Workspace) (plan : Plan) (node : Node) : Prop :=
  node.output = none ∧
    ∃ dependent ∈ plan.typecheck, dependent.input ∈ node.dependents ∧
      ∃ output, dependent.output = some output ∧
        ∃ built changed, ws.modified output = .ok built ∧
          ws.modified node.input = .ok changed ∧ built.isBefore changed = true

/-- The outputs of the files to compile have been written, none of them older than a file that was
there. -/
structure Completed (before after : Workspace) (config : Config) (graph : Graph) (plan : Plan)
    (places : List (List Text × File)) : Prop where
  builds : (before.buildGraph config []).value = .ok graph
  decided : ∀ node ∈ graph.nodes,
    ∃ stale, before.needsCompile (some graph) node = .ok stale
  settles : plan.Settles graph fun node => before.needsCompile (some graph) node = .ok true
  wrote : WroteOutputs before after places
  outputs : ∀ node ∈ plan.compile, ∀ output, node.output = some output →
    before.namesOf output ∈ places.map Prod.fst
  fresh : ∀ place ∈ places, ∀ file ∈ before.root.allFiles,
    place.2.modified.isBefore file.modified = false

namespace Completed

/-- The time of a source file is that of a file, before and after. -/
theorem exists_modified_source (hdone : Completed before after config graph plan places)
    (hnode : node ∈ graph.nodes) :
    ∃ file ∈ before.root.allFiles, before.modified node.input = .ok file.modified ∧
      after.modified node.input = .ok file.modified := by
  have hproject := projected_of_buildGraph hdone.builds
  have htext := hproject.canonical node hnode
  obtain ⟨hfree, file, hlocate⟩ := exists_file_of_scan htext (hproject.scanned node hnode)
  have hbefore : before.modified node.input = .ok file.modified :=
    modified_eq_ok_iff.2 ⟨hfree, .file file, hlocate, rfl⟩
  have hplace : ¬Path.IsOutputPlace (before.namesOf node.input) :=
    (isSource_of_buildGraph hdone.builds hnode).not_isOutputPlace htext
  exact ⟨file, mem_allFiles_of_locate hlocate, hbefore,
    hdone.wrote.modified_kept htext (hdone.wrote.not_mem_places hplace) hbefore⟩

/-- An output is there afterwards.  It is no older than any file that was there, or it belongs to a
file that is not stale and has been left as it was. -/
theorem output_cases (hdone : Completed before after config graph plan places)
    (hnode : node ∈ graph.nodes) (houtput : node.output = some output) :
    ∃ built, after.modified output = .ok built ∧
      ((∀ file ∈ before.root.allFiles, built.isBefore file.modified = false) ∨
        before.needsCompile (some graph) node = .ok false ∧
          before.modified output = .ok built) := by
  have hproject := projected_of_buildGraph hdone.builds
  have hconfig := houtput
  rw [hproject.output node hnode] at hconfig
  have htext := (Config.isOutputPlace_of_outputOf hconfig).1
  obtain ⟨stale, hstale⟩ := hdone.decided node hnode
  have hcompile : before.outputBefore output node.input = .ok stale := by
    rw [← needsCompile_of_output houtput, hstale]
  by_cases hplace : before.namesOf output ∈ places.map Prod.fst
  · obtain ⟨place, hmem, hbuilt⟩ := hdone.wrote.exists_modified_written htext
      (askable_of_outputBefore hcompile) hplace
    exact ⟨place.2.modified, hbuilt, .inl (hdone.fresh place hmem)⟩
  · cases stale with
    | true =>
        -- the files to compile have all got their outputs
        have hmem : { node with mark := .compile } ∈ plan.compile :=
          (hdone.settles.compile _).2 ⟨node, hnode, hstale, rfl⟩
        exact (hplace (hdone.outputs _ hmem output houtput)).elim
    | false =>
        obtain ⟨built, _, hbuilt, _⟩ := exists_modified_of_outputBefore hcompile
        exact ⟨built, hdone.wrote.modified_kept htext hplace hbuilt, .inr ⟨hstale, hbuilt⟩⟩

/-- No file with an output is stale afterwards. -/
theorem output_eq_none (hdone : Completed before after config graph plan places)
    (hold : old ∈ graph.nodes) (hinput : old.input = node.input)
    (houtput : old.output = node.output)
    (hstale : after.needsCompile (some next) node = .ok true) : node.output = none := by
  cases hcase : node.output with
  | none => rfl
  | some output =>
      rw [hcase] at houtput
      obtain ⟨file, hfile, hbefore, hafter⟩ := hdone.exists_modified_source hold
      obtain ⟨built, hbuilt, hfresh⟩ := hdone.output_cases hold houtput
      rw [needsCompile_of_output hcase, ← hinput, outputBefore_of_modified hbuilt hafter] at hstale
      have hnot : built.isBefore file.modified = false := by
        rcases hfresh with hfresh | ⟨hcurrent, hkept⟩
        · exact hfresh file hfile
        · rw [needsCompile_of_output houtput, outputBefore_of_modified hkept hbefore] at hcurrent
          exact Except.ok.inj hcurrent
      rw [hnot] at hstale
      cases hstale

/-- A declaration file that is newer than the output of a file which depends on it and is not stale
is left over. -/
theorem leftOver (hdone : Completed before after config graph plan places)
    (hold : old ∈ graph.nodes) (hnone : old.output = none)
    (hchanged : before.modified old.input = .ok changed) (hnode : node ∈ graph.nodes)
    (hdependent : node.input ∈ old.dependents) (houtput : node.output = some output)
    (hcurrent : before.needsCompile (some graph) node = .ok false)
    (hbuilt : before.modified output = .ok built) (hbefore : built.isBefore changed = true) :
    { old with mark := .compile } ∈ plan.compile ∧
      before.LeftOver plan { old with mark := .compile } := by
  have hproject := projected_of_buildGraph hdone.builds
  obtain ⟨stale, hstale⟩ := hdone.decided old hold
  have hany := hstale
  rw [needsCompile_of_declaration hnone hchanged] at hany
  have hfind : (graph.find? node.input).bind Node.output = some output := by
    rw [hproject.find?_input hnode]
    exact houtput
  have htrue :=
    eq_true_of_anyOutputBefore hany (PathSet.mem_def.1 hdependent) hfind hbuilt hbefore
  rw [htrue] at hstale
  have hfresh : before.needsCompile (some graph) node ≠ .ok true := by
    rw [hcurrent]
    exact fun hsame => Bool.false_ne_true (Except.ok.inj hsame)
  have htypecheck : { node with mark := .typecheck } ∈ plan.typecheck :=
    (hdone.settles.typecheck _).2
      ⟨node, hnode, ⟨hfresh, old, hold, hstale, hdependent⟩, rfl⟩
  exact ⟨(hdone.settles.compile _).2 ⟨old, hold, hstale, rfl⟩, hnone,
    _, htypecheck, hdependent, output, houtput, built, changed, hbuilt, hchanged, hbefore⟩

/-- What is stale afterwards is a declaration file that was left over. -/
theorem exists_leftOver (hdone : Completed before after config graph plan places)
    (hnext : after.Projected config next) (hcovers : Covers graph next) (hnode : node ∈ next.nodes)
    (hstale : after.needsCompile (some next) node = .ok true) :
    node.output = none ∧
      ∃ left ∈ plan.compile, left.input = node.input ∧ before.LeftOver plan left := by
  obtain ⟨old, hold, hinput, houtput, hdependents⟩ := hcovers node hnode
  have hnone := hdone.output_eq_none hold hinput houtput hstale
  obtain ⟨file, hfile, hbefore, hafter⟩ := hdone.exists_modified_source hold
  rw [hinput] at hafter
  rw [needsCompile_of_declaration hnone hafter] at hstale
  obtain ⟨path, hpath, output, hfound, built, hbuilt, hless⟩ := exists_of_anyOutputBefore hstale
  have hpath : path ∈ node.dependents := hpath
  have hinputs : path ∈ next.inputs := by
    rw [← Graph.dependentsAt_input hnode, hnext.exact] at hpath
    exact Graph.source_mem_of_transGen hpath
  obtain ⟨later, hlater, rfl⟩ := Graph.mem_inputs.1 hinputs
  rw [hnext.find?_input hlater, Option.bind_some] at hfound
  obtain ⟨dependent, hdependent, hsame, hartifact, _⟩ := hcovers later hlater
  rw [hfound] at hartifact
  have hmem : dependent.input ∈ old.dependents := hsame ▸ hdependents _ hpath
  -- an output that has been written is not older, so this one has been left as it was
  obtain ⟨_, hlatest, hcases⟩ := hdone.output_cases hdependent hartifact
  cases hbuilt.symm.trans hlatest
  rcases hcases with hfresh | ⟨hcurrent, hkept⟩
  · cases (hfresh file hfile).symm.trans hless
  · obtain ⟨hcompile, hleft⟩ := hdone.leftOver hold (houtput.trans hnone) hbefore hdependent hmem
      hartifact hcurrent hkept hless
    exact ⟨hnone, _, hcompile, hinput, hleft⟩

/-- Staleness is decided afterwards as well. -/
theorem exists_needsCompile (hdone : Completed before after config graph plan places)
    (hnext : after.Projected config next) (hcovers : Covers graph next)
    (hnode : node ∈ next.nodes) :
    ∃ stale, after.needsCompile (some next) node = .ok stale := by
  have hask : next.OutputsAskable := by
    intro later hlater output houtput
    obtain ⟨old, hold, _, hsame, _⟩ := hcovers later hlater
    obtain ⟨stale, hstale⟩ := hdone.decided old hold
    rw [needsCompile_of_output (hsame.trans houtput)] at hstale
    exact askable_of_outputBefore hstale
  exact hnext.exists_needsCompile_of_askable hask hnode

theorem exists_plan (hdone : Completed before after config graph plan places) :
    ∃ next, (after.plan config [] false).value = .ok next ∧
      (∀ node ∈ next.typecheck, ∃ source ∈ next.compile, node.input ∈ source.dependents) ∧
      ∀ node ∈ next.compile, node.output = none ∧
        ∃ left ∈ plan.compile, left.input = node.input ∧ before.LeftOver plan left := by
  obtain ⟨later, hlater, hcovers⟩ := hdone.wrote.exists_buildGraph hdone.builds
  have hproject := projected_of_buildGraph hlater
  obtain ⟨next, hnext, hsettles⟩ := exists_plan_of_decided hlater fun node hnode =>
    hdone.exists_needsCompile hproject hcovers hnode
  refine ⟨next, hnext, fun _ => hsettles.exists_source, fun node hnode => ?_⟩
  obtain ⟨old, hold, hstale, rfl⟩ := (hsettles.compile node).1 hnode
  have hleft := hdone.exists_leftOver hproject hcovers hold hstale
  exact hleft

end Completed

/-- Where a file was read there is a working directory. -/
theorem isThere_of_buildGraph {files : List Text}
    (hgraph : (ws.buildGraph config files).value = .ok graph) (hnode : node ∈ graph.nodes) :
    ws.IsThere := by
  have hproject := projected_of_buildGraph hgraph
  have hsource := isSource_of_buildGraph hgraph hnode
  obtain ⟨_, file, hlocate⟩ := hproject.exists_file hnode
  refine isThere_of_locate ?_ hlocate
  rw [Path.ofChars_of_canonical (hproject.canonical node hnode)]
  by_contra hrooted
  have habsolute := (Path.isAbsolute_eq_true_iff node.input).2 hrooted
  rw [hsource.relative] at habsolute
  cases habsolute

theorem completed_of_carriedOut {built : List (Text × File)}
    (hgraph : (before.buildGraph config []).value = .ok graph)
    (hdecided : ∀ node ∈ graph.nodes,
      ∃ stale, before.needsCompile (some graph) node = .ok stale)
    (hsettles : plan.Settles graph fun node => before.needsCompile (some graph) node = .ok true)
    (hthere : before.IsThere) (hdone : plan.CarriedOut before built after) :
    Completed before after config graph plan
      (built.map fun pair => (before.namesOf pair.1, pair.2)) := by
  have hplaces : ∀ pair ∈ built,
      Path.canonical pair.1 = pair.1 ∧ Path.IsOutputPlace (before.namesOf pair.1) := by
    intro pair hpair
    obtain ⟨node, hnode, houtput⟩ := (hdone.outputs pair.1).1 (List.mem_map_of_mem hpair)
    obtain ⟨old, hold, _, rfl⟩ := (hsettles.compile node).1 hnode
    have hconfig : old.output = some pair.1 := houtput
    rw [(projected_of_buildGraph hgraph).output old hold] at hconfig
    exact Config.isOutputPlace_of_outputOf hconfig
  exact {
    builds := hgraph
    decided := hdecided
    settles := hsettles
    wrote := {
      there := hthere
      wrote := wrote_writes hthere (fun pair hpair => (hplaces pair hpair).1) hdone.writes
      outputs := by
        intro place hplace
        obtain ⟨pair, hpair, rfl⟩ := List.mem_map.1 hplace
        exact (hplaces pair hpair).2 }
    outputs := by
      intro node hnode output houtput
      obtain ⟨pair, hpair, rfl⟩ :=
        List.mem_map.1 ((hdone.outputs output).2 ⟨node, hnode, houtput⟩)
      rw [List.map_map]
      exact List.mem_map_of_mem hpair
    fresh := by
      intro place hplace
      obtain ⟨pair, hpair, rfl⟩ := List.mem_map.1 hplace
      exact hdone.latest pair hpair }

/-- Planning again after a plan has been carried out gives a plan.  What it has to compile are
declaration files only, each of which the first plan has left over, and what it has to type-check
depends on these.  So it is empty when nothing has been left over. -/
theorem rebuild_converges {built : List (Text × File)}
    (hplan : (before.plan config [] false).value = .ok plan)
    (hdone : plan.CarriedOut before built after) :
    ∃ next, (after.plan config [] false).value = .ok next ∧
      (∀ node ∈ next.compile, node.output = none ∧
        ∃ left ∈ plan.compile, left.input = node.input ∧ before.LeftOver plan left) ∧
      (∀ node ∈ next.typecheck, ∃ source ∈ next.compile, node.input ∈ source.dependents) ∧
      ((∀ left ∈ plan.compile, ¬before.LeftOver plan left) → next.isEmpty = true) := by
  obtain ⟨graph, hgraph, hdecided, hsettles⟩ := exists_settles_of_plan hplan
  suffices hnext : ∃ next, (after.plan config [] false).value = .ok next ∧
      (∀ node ∈ next.typecheck, ∃ source ∈ next.compile, node.input ∈ source.dependents) ∧
      ∀ node ∈ next.compile, node.output = none ∧
        ∃ left ∈ plan.compile, left.input = node.input ∧ before.LeftOver plan left by
    obtain ⟨next, hvalue, htypecheck, hcompile⟩ := hnext
    refine ⟨next, hvalue, hcompile, htypecheck, fun hnone => ?_⟩
    refine Plan.isEmpty_of_compile_eq_nil htypecheck ?_
    refine List.eq_nil_iff_forall_not_mem.2 fun node hnode => ?_
    obtain ⟨_, left, hleft, _, hover⟩ := hcompile node hnode
    exact hnone left hleft hover
  by_cases hnone : graph.nodes = []
  · -- nothing is written, so the plan stays as it is
    have hcompile : plan.compile = [] := hsettles.compile_eq_nil fun node hnode =>
      (List.not_mem_nil (hnone ▸ hnode)).elim
    cases hdone.eq fun node hnode => (List.not_mem_nil (hcompile ▸ hnode)).elim
    refine ⟨plan, hplan, fun _ => hsettles.exists_source, fun node hnode => ?_⟩
    exact (List.not_mem_nil (hcompile ▸ hnode)).elim
  · obtain ⟨node, hnode⟩ := List.exists_mem_of_ne_nil graph.nodes hnone
    have hthere := isThere_of_buildGraph hgraph hnode
    exact (completed_of_carriedOut hgraph hdecided hsettles hthere hdone).exists_plan

theorem exists_write_halfBuilt :
    ∃ after, [("b.lua", textFile "")].foldlM (fun (ws : Workspace) pair => ws.write pair.1 pair.2)
        halfBuilt = .ok after ∧ after.location = [] :=
  exists_ok_of_map_toOption (by decide +kernel)

theorem rebuild_converges_halfBuilt :
    ∃ plan after, (halfBuilt.plan .default [] false).value = .ok plan ∧
      plan.typecheck.map Node.input = (["a.tl"] : List Text) ∧
      plan.CarriedOut halfBuilt [("b.lua", textFile "")] after ∧
      ∃ next, (after.plan .default [] false).value = .ok next ∧ next.isEmpty = true := by
  obtain ⟨plan, hplan, hseen⟩ := exists_plan_halfBuilt
  obtain ⟨hcompile, htypecheck⟩ := Prod.mk.inj hseen
  obtain ⟨after, hwrites, _⟩ := exists_write_halfBuilt
  have houtputs (output : Option Text) :
      (∃ node ∈ plan.compile, node.output = output) ↔ output = some ("b.lua" : Text) := by
    rw [← List.mem_map, hcompile, List.mem_singleton]
  have hdone : plan.CarriedOut halfBuilt [("b.lua", textFile "")] after := {
    outputs := fun text => by simp [houtputs]
    latest := by decide
    writes := hwrites }
  obtain ⟨next, hnext, _, _, hempty⟩ := rebuild_converges hplan hdone
  refine ⟨plan, after, hplan, htypecheck, hdone, next, hnext, hempty ?_⟩
  rintro left hleft ⟨hnone, _⟩
  cases (houtputs none).1 ⟨left, hleft, hnone⟩

/-- A file that has been built, and a declaration file that is newer. -/
def declared : Workspace where
  root := .file "a.tl" (textFile "require[[c]]") (.file "a.lua" (textFile "")
    (.file "c.d.tl" { textFile "" with modified := .ofSeconds 1 0 } .empty))
  rootModified := .ofSeconds 0 0
  location := []

theorem exists_plan_declared :
    ∃ plan, (declared.plan .default [] false).value = .ok plan ∧
      (plan.compile.map Node.output, plan.isEmpty) = ([none], false) :=
  exists_ok_of_map_toOption (by decide +kernel)

/-- The plan for a newer declaration file writes nothing, so it is due again and again. -/
theorem rebuild_repeats_declared :
    ∃ plan, (declared.plan .default [] false).value = .ok plan ∧
      plan.CarriedOut declared [] declared ∧ plan.isEmpty = false := by
  obtain ⟨plan, hplan, hseen⟩ := exists_plan_declared
  obtain ⟨hcompile, hsome⟩ := Prod.mk.inj hseen
  refine ⟨plan, hplan, Plan.carriedOut_nil fun node hnode => ?_, hsome⟩
  have houtput : node.output ∈ plan.compile.map Node.output := List.mem_map_of_mem hnode
  rw [hcompile] at houtput
  exact List.mem_singleton.1 houtput

end Workspace

end Rebuild
