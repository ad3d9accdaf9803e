import Rebuild.Proofs.Project.Placement

/-!
# Named files and the nodes they stand for

A file that is named for a plan is looked up by the text of its path.  Texts that leave as many
folders by `..` before they lead down, and lead to one place, are the same text; so a named file
stands for the node at its place unless one of the two is absolute or they leave different numbers
of folders.  In a project without backslashes only the source directory decides on the number.
-/

namespace Rebuild

namespace Path

variable {text first second directory : Text} {names : List Text}

/-- The number of folders that a path leaves before it leads down. -/
def climbs (text : Text) : Nat :=
  (ofText text).names.count (".." : Text)

theorem count_up_of_isName (hnames : ∀ name ∈ names, IsName name) :
    names.count (".." : Text) = 0 :=
  List.count_eq_zero.2 fun hup => (hnames ".." hup).ne_up rfl

theorem exists_names_of_climbs (text : Text) :
    ∃ proper, (ofText text).names = List.replicate (climbs text) (".." : Text) ++ proper ∧
      ∀ name ∈ proper, IsName name := by
  obtain ⟨proper, count, hstack, hproper⟩ := (isNormal_ofText text).stack.exists_ups
  have hnames : (ofText text).names = List.replicate count (".." : Text) ++ proper.reverse := by
    rw [← List.reverse_reverse (ofText text).names, hstack, List.reverse_append,
      List.reverse_replicate]
  have hreverse : ∀ name ∈ proper.reverse, IsName name :=
    fun name hname => hproper name (List.mem_reverse.1 hname)
  refine ⟨proper.reverse, ?_, hreverse⟩
  have hcount : climbs text = count := by
    rw [climbs, hnames, List.count_append, count_up_of_isName hreverse, List.count_replicate_self,
      Nat.add_zero]
  rw [hcount, hnames]

theorem eq_of_ofText_eq (hfirst : canonical first = first) (hsecond : canonical second = second)
    (hsame : ofText first = ofText second) : first = second := by
  rw [← hfirst, ← hsecond, canonical, canonical, hsame]

theorem climbs_of_absolute (habsolute : isAbsolute text = true) : climbs text = 0 := by
  apply count_up_of_isName
  intro name hname
  exact (isNormal_ofText text).stack.isName ((isAbsolute_eq_true_iff text).1 habsolute) name
    (List.mem_reverse.2 hname)

theorem climbs_under (hnames : ∀ name ∈ names, IsPlain name) :
    climbs (under directory names) = climbs directory := by
  rw [climbs, ofText_under hnames, List.count_append,
    count_up_of_isName fun name hname => (hnames name hname).toIsName, Nat.add_zero, climbs]

end Path

theorem Plan.Settles.nodup_compile {plan : Plan} {graph : Graph} {changed : Node → Prop}
    (hsettles : plan.Settles graph changed) : (plan.compile.map Node.input).Nodup :=
  (plan.graph.perm_inputs_ordered.nodup_iff.2 plan.graph.distinct).sublist
    (hsettles.compile_sublist.map Node.input)

namespace Workspace

variable {ws : Workspace} {config : Config} {graph : Graph} {files : List Text}
  {file first second : Text} {node : Node}

/-- Relative texts that climb as far and lead to one place are the same: after the climb from the
working directory each adds its own names. -/
theorem eq_of_namesOf_eq_of_climbs_eq (hfirst : Path.canonical first = first)
    (hsecond : Path.canonical second = second) (hfirstRelative : Path.isAbsolute first = false)
    (hsecondRelative : Path.isAbsolute second = false)
    (hclimbs : Path.climbs first = Path.climbs second)
    (hsame : ws.namesOf first = ws.namesOf second) : first = second := by
  have hfirstRoot := Path.root_of_relative hfirstRelative
  have hsecondRoot := Path.root_of_relative hsecondRelative
  obtain ⟨down, hfirstNames, hdown⟩ := Path.exists_names_of_climbs first
  obtain ⟨other, hsecondNames, hother⟩ := Path.exists_names_of_climbs second
  rw [namesOf_of_relative hfirst hfirstRoot, namesOf_of_relative hsecond hsecondRoot,
    hfirstNames, hsecondNames, hclimbs, ← List.append_assoc, ← List.append_assoc,
    Root.reduce_append_of_isName hdown, Root.reduce_append_of_isName hother] at hsame
  have hdownEq : down = other := List.append_cancel_left hsame
  apply Path.eq_of_ofText_eq hfirst hsecond
  calc
    Path.ofText first = ⟨.relative, List.replicate (Path.climbs second) (".." : Text) ++ down⟩ := by
      rw [← hclimbs, ← hfirstNames, ← hfirstRoot]
    _ = Path.ofText second := by
      rw [hdownEq, ← hsecondNames, ← hsecondRoot]

/-- A named file stands for a node when its path, seen from the working directory, is relative as
well, climbs as far, and leads to the same place. -/
structure StandsFor (ws : Workspace) (file : Text) (node : Node) : Prop where
  relative : Path.isAbsolute (ws.location.projectRelative file) = false
  climbs : Path.climbs (ws.location.projectRelative file) = Path.climbs node.input
  place : ws.namesOf (ws.location.projectRelative file) = ws.namesOf node.input

theorem standsFor_iff (hgraph : (ws.buildGraph config []).value = .ok graph)
    (hnode : node ∈ graph.nodes) :
    ws.StandsFor file node ↔ ws.location.projectRelative file = node.input := by
  have hrelative := (isSource_of_buildGraph hgraph hnode).relative
  constructor
  · intro hstands
    exact eq_of_namesOf_eq_of_climbs_eq (ws.location.canonical_projectRelative file)
      ((projected_of_buildGraph hgraph).canonical node hnode) hstands.relative hrelative
      hstands.climbs hstands.place
  · intro hinput
    rw [← hinput] at hrelative
    exact ⟨hrelative, congrArg Path.climbs hinput, congrArg ws.namesOf hinput⟩

theorem mem_inputs_iff_exists_standsFor (hgraph : (ws.buildGraph config []).value = .ok graph) :
    ws.location.projectRelative file ∈ graph.inputs ↔
      ∃ node ∈ graph.nodes, ws.StandsFor file node := by
  rw [Graph.mem_inputs]
  refine exists_congr fun node => and_congr_right fun hnode => ?_
  rw [standsFor_iff hgraph hnode, eq_comm]

theorem unknownFiles_eq_nil_iff_standsFor (hgraph : (ws.buildGraph config []).value = .ok graph) :
    ws.unknownFiles graph files = [] ↔
      ∀ file ∈ files, ∃ node ∈ graph.nodes, ws.StandsFor file node := by
  rw [unknownFiles_eq_nil_iff, List.forall_mem_map]
  exact forall₂_congr fun file _ => mem_inputs_iff_exists_standsFor hgraph

/-- With files that are named, whether a node has changed is read off their paths. -/
theorem isChanged_of_named (hgraph : (ws.buildGraph config []).value = .ok graph)
    (hsome : files ≠ []) (hnode : node ∈ graph.nodes) :
    ∃ answer : Bool,
      ws.isChanged graph (.ofList (files.map ws.location.projectRelative)) false node.input =
          .ok answer ∧
        (answer = true ↔ ∃ file ∈ files, ws.StandsFor file node) := by
  obtain ⟨file, hfile⟩ := List.exists_mem_of_ne_nil files hsome
  have hmem : ws.location.projectRelative file ∈
      PathSet.ofList (files.map ws.location.projectRelative) :=
    PathSet.mem_ofList.2 (List.mem_map_of_mem hfile)
  have hnamed :
      ¬(PathSet.ofList (files.map ws.location.projectRelative)).toList.isEmpty = true := by
    rw [List.isEmpty_iff]
    exact List.ne_nil_of_mem hmem
  refine ⟨decide (node.input ∈ PathSet.ofList (files.map ws.location.projectRelative)), ?_, ?_⟩
  · rw [isChanged, if_neg Bool.false_ne_true, if_neg hnamed]
  · rw [decide_eq_true_iff, PathSet.mem_ofList, List.mem_map]
    exact exists_congr fun file => and_congr_right fun _ => (standsFor_iff hgraph hnode).symm

/-! ## Spellings without backslashes -/

theorem reduce_location (hhere : ∀ name ∈ ws.location, Path.IsPlain name) :
    Root.single.reduce ws.location = ws.location := by
  have hreduce : Root.single.reduce ([] ++ ws.location) = Root.single.reduce [] ++ ws.location :=
    Root.reduce_append_of_isName fun name hname => (hhere name hname).toIsName
  exact hreduce

theorem isNormal_path (hhere : ∀ name ∈ ws.location, Path.IsPlain name) :
    ws.location.path.IsNormal where
  stack := by
    have hstack := Root.single.isStack_reverse_reduce ws.location
    rwa [reduce_location hhere] at hstack
  slashFree := fun name hname => (hhere name hname).slashFree

theorem absolute_here (hhere : ws.location.path.IsNormal) :
    ws.location.absolute ws.location.text = ws.location.path := by
  rw [Location.absolute, Location.text, Path.parse_render hhere]
  exact Path.append_of_rooted Root.noConfusion

theorem isPlain_of_mem_namesOf (hback : .char '\\' ∉ file.toList)
    (habsolute : Path.isAbsolute file = true) {name : Text} (hname : name ∈ ws.namesOf file) :
    Path.IsPlain name := by
  have hrooted := (Path.isAbsolute_eq_true_iff file).1 habsolute
  have hnames : (ws.location.absolute file).names = (Path.ofText file).names := by
    rw [Location.absolute, Path.parse_eq_ofText hback, Path.append_of_rooted hrooted]
  have hmem : name ∈ (Path.ofText file).names := by rwa [← hnames]
  exact ⟨Location.isName_of_mem_absolute name hname,
    (Path.isNormal_ofText file).slashFree name hmem, Path.backslashFree_ofText file name hmem⟩

/-- What lies below the working directory is named by a relative path. -/
theorem projectRelative_of_inside (hhere : ws.location.path.IsNormal)
    (hback : .char '\\' ∉ file.toList) (habsolute : Path.isAbsolute file = true) {rest : List Text}
    (hplace : ws.namesOf file = ws.location ++ rest) :
    ws.location.projectRelative file = (Path.down rest).render ∧
      ∀ name ∈ rest, Path.IsPlain name := by
  have hnames : (ws.location.absolute file).names =
      (ws.location.absolute ws.location.text).names ++ rest := by
    rw [absolute_here hhere]
    exact hplace
  have hplain : ∀ name ∈ rest, Path.IsPlain name := by
    intro name hname
    apply isPlain_of_mem_namesOf hback habsolute
    rw [hplace]
    exact List.mem_append_right _ hname
  have hinside : ws.location.isInside file ws.location.text = true :=
    Location.isInside_iff.2 ⟨by rw [absolute_here hhere]; rfl, rest, hnames⟩
  refine ⟨?_, hplain⟩
  rw [Location.projectRelative, habsolute, hinside, Bool.and_self, if_pos rfl,
    Location.relativeTo_of_names hnames, Path.canonical_render_down hplain]

/-- Seen from the working directory a path is in canonical form, or it leads from the root into the
working directory and is written from there. -/
theorem projectRelative_cases (hhere : ws.location.path.IsNormal)
    (hback : .char '\\' ∉ file.toList) :
    ws.location.projectRelative file = Path.canonical file ∨
      Path.isAbsolute file = true ∧ ∃ rest, (∀ name ∈ rest, Path.IsPlain name) ∧
        ws.namesOf file = ws.location ++ rest ∧
          ws.location.projectRelative file = (Path.down rest).render := by
  by_cases hcase :
      (Path.isAbsolute file && ws.location.isInside file ws.location.text) = true
  · obtain ⟨habsolute, hinside⟩ := Bool.and_eq_true_iff.1 hcase
    obtain ⟨_, rest, hnames⟩ := Location.isInside_iff.1 hinside
    rw [absolute_here hhere] at hnames
    have hplace : ws.namesOf file = ws.location ++ rest := hnames
    obtain ⟨hrelative, hplain⟩ := projectRelative_of_inside hhere hback habsolute hplace
    exact .inr ⟨habsolute, rest, hplain, hplace, hrelative⟩
  · exact .inl (if_neg hcase)

theorem namesOf_canonical (hback : .char '\\' ∉ file.toList) :
    ws.namesOf (Path.canonical file) = ws.namesOf file := by
  rw [namesOf, Location.absolute_of_canonical _ (Path.canonical_canonical file),
    Path.ofText_canonical, ← Path.parse_eq_ofText hback, namesOf, Location.absolute]

/-- Without backslashes a file and its path seen from the working directory name one place. -/
theorem namesOf_projectRelative (hhere : ws.location.path.IsNormal)
    (hback : .char '\\' ∉ file.toList) :
    ws.namesOf (ws.location.projectRelative file) = ws.namesOf file := by
  rcases projectRelative_cases hhere hback with hcanonical | ⟨-, rest, hplain, hplace, hrelative⟩
  · rw [hcanonical, namesOf_canonical hback]
  · rw [hrelative, namesOf, Location.absolute_of_canonical _ (Path.canonical_render_down hplain),
      Path.ofText_render_down hplain, Path.append_down hhere.stack
        fun name hname => (hplain name hname).toIsName]
    exact hplace.symm

theorem climbs_of_node (hplain : ws.HasPlainNames)
    (hgraph : (ws.buildGraph config []).value = .ok graph) (hnode : node ∈ graph.nodes) :
    Path.climbs node.input = Path.climbs (config.projectDir ws.location) := by
  obtain ⟨init, name, hunder⟩ := exists_isSourceUnder hplain hgraph hnode
  rw [hunder.text_eq, Path.climbs_under hunder.plain]

/-- A node of a source directory below the working directory lies below it as well. -/
theorem exists_names_of_climbs_eq_zero (hhere : ∀ name ∈ ws.location, Path.IsPlain name)
    (hgraph : (ws.buildGraph config []).value = .ok graph) (hnode : node ∈ graph.nodes)
    (hclimbs : Path.climbs node.input = 0) :
    ∃ rest, ws.namesOf node.input = ws.location ++ rest := by
  have hroot := Path.root_of_relative (isSource_of_buildGraph hgraph hnode).relative
  obtain ⟨proper, hnames, hproper⟩ := Path.exists_names_of_climbs node.input
  rw [hclimbs, List.replicate_zero, List.nil_append] at hnames
  refine ⟨proper, ?_⟩
  rw [namesOf_of_relative ((projected_of_buildGraph hgraph).canonical node hnode) hroot, hnames,
    Root.reduce_append_of_isName hproper, reduce_location hhere]

/-- Where nothing has a backslash in its name, a file that climbs as far as the source directory
stands for the node at its place, whichever way it is written. -/
theorem standsFor_iff_of_climbs_eq (hplain : ws.HasPlainNames)
    (hgraph : (ws.buildGraph config []).value = .ok graph) (hnode : node ∈ graph.nodes)
    (hback : .char '\\' ∉ file.toList)
    (hclimbs : Path.climbs (ws.location.projectRelative file) =
      Path.climbs (config.projectDir ws.location)) :
    ws.StandsFor file node ↔ ws.namesOf file = ws.namesOf node.input := by
  have hsame : Path.climbs (ws.location.projectRelative file) = Path.climbs node.input :=
    hclimbs.trans (climbs_of_node hplain hgraph hnode).symm
  have hhere := isNormal_path hplain.location
  have hplace := namesOf_projectRelative hhere hback
  constructor
  · intro hstands
    exact hplace.symm.trans hstands.place
  · intro heq
    refine ⟨?_, hsame, hplace.trans heq⟩
    -- an absolute path does not climb, so the node would lie below the working directory
    refine Bool.eq_false_of_not_eq_true fun hrooted => ?_
    have hzero : Path.climbs node.input = 0 := by
      rw [← hsame, Path.climbs_of_absolute hrooted]
    obtain ⟨rest, hrest⟩ := exists_names_of_climbs_eq_zero hplain.location hgraph hnode hzero
    by_cases habsolute : Path.isAbsolute file = true
    · obtain ⟨hrelative, hnames⟩ :=
        projectRelative_of_inside hhere hback habsolute (heq.trans hrest)
      rw [hrelative, Path.isAbsolute_render_down hnames] at hrooted
      cases hrooted
    · rw [Location.projectRelative, Bool.eq_false_of_not_eq_true habsolute, Bool.false_and,
        if_neg Bool.false_ne_true, Path.isAbsolute_canonical] at hrooted
      exact habsolute hrooted

/-- When files are named, planning fails exactly if one of them stands for no node; otherwise the
nodes to compile are exactly those for which one of them stands. -/
theorem named_files_exact (hsome : files ≠ [])
    (hgraph : (ws.buildGraph config []).value = .ok graph) :
    ((∃ unknown, (ws.plan config files false).value = .error (.unknownFiles unknown)) ↔
      ∃ file ∈ files, ∀ node ∈ graph.nodes, ¬ws.StandsFor file node) ∧
    ((∀ file ∈ files, ∃ node ∈ graph.nodes, ws.StandsFor file node) →
      ∃ plan, (ws.plan config files false).value = .ok plan ∧
        (plan.compile.map Node.input).Nodup ∧
        ∀ node, node ∈ plan.compile ↔ ∃ old ∈ graph.nodes,
          (∃ file ∈ files, ws.StandsFor file old) ∧ node = { old with mark := .compile }) ∧
    (ws.HasPlainNames → ∀ file, .char '\\' ∉ file.toList →
      Path.climbs (ws.location.projectRelative file) =
        Path.climbs (config.projectDir ws.location) →
      ∀ node ∈ graph.nodes, ws.StandsFor file node ↔ ws.namesOf file = ws.namesOf node.input) := by
  have hproject := projected_of_buildGraph hgraph
  have hknown (hall : ∀ file ∈ files, ∃ node ∈ graph.nodes, ws.StandsFor file node) :
      ∃ plan, (ws.plan config files false).value = .ok plan ∧
        plan.Settles graph fun node => ∃ file ∈ files, ws.StandsFor file node := by
    obtain ⟨final, hfinal, hmarks⟩ := Graph.exists_markEach hproject.exact hproject.unset
      fun node hnode => isChanged_of_named hgraph hsome hnode
    refine ⟨.ofMarked final, ?_,
      Plan.settles_ofMarked (Graph.unmarked_of_markEach hfinal) hmarks⟩
    rw [value_plan hgraph,
      planGraph_of_known ((unknownFiles_eq_nil_iff_standsFor hgraph).2 hall), hfinal]
    rfl
  refine ⟨⟨?_, ?_⟩, ?_, ?_⟩
  · rintro ⟨unknown, hunknown⟩
    by_contra hnone
    have hall : ∀ file ∈ files, ∃ node ∈ graph.nodes, ws.StandsFor file node := by
      simpa only [not_exists, not_and, not_forall, not_not, exists_prop] using hnone
    obtain ⟨plan, hplan, _⟩ := hknown hall
    rw [hplan] at hunknown
    cases hunknown
  · rintro ⟨file, hfile, hnone⟩
    refine ⟨ws.unknownFiles graph files, ?_⟩
    rw [value_plan hgraph]
    refine planGraph_of_unknown fun hnil => ?_
    obtain ⟨node, hnode, hstands⟩ := (unknownFiles_eq_nil_iff_standsFor hgraph).1 hnil file hfile
    exact hnone node hnode hstands
  · intro hall
    obtain ⟨plan, hplan, hsettles⟩ := hknown hall
    exact ⟨plan, hplan, hsettles.nodup_compile, hsettles.compile⟩
  · intro hplain file hback hclimbs node hnode
    exact standsFor_iff_of_climbs_eq hplain hgraph hnode hback hclimbs

theorem exists_inputs_sideways :
    ∃ graph, (sideways.buildGraph sidewaysConfig []).value = .ok graph ∧
      graph.inputs = (["a.tl", "b.tl", "c.d.tl"] : List Text) :=
  exists_ok_of_map_toOption (by decide +kernel)

theorem named_files_exact_sideways :
    (["/s/b.tl", "x/../a.tl"] : List Text) ≠ [] ∧
      ∃ graph, (sideways.buildGraph sidewaysConfig []).value = .ok graph ∧
        (∀ file ∈ (["/s/b.tl", "x/../a.tl"] : List Text),
          ∃ node ∈ graph.nodes, sideways.StandsFor file node) ∧
        ∃ plan, (sideways.plan sidewaysConfig ["/s/b.tl", "x/../a.tl"] false).value = .ok plan ∧
          ∀ node, node ∈ plan.compile ↔ ∃ old ∈ graph.nodes,
            (∃ file ∈ (["/s/b.tl", "x/../a.tl"] : List Text), sideways.StandsFor file old) ∧
              node = { old with mark := .compile } := by
  have hsome : (["/s/b.tl", "x/../a.tl"] : List Text) ≠ [] := List.cons_ne_nil _ _
  obtain ⟨graph, hgraph, hinputs⟩ := exists_inputs_sideways
  have hknown : ∀ file ∈ (["/s/b.tl", "x/../a.tl"] : List Text),
      ∃ node ∈ graph.nodes, sideways.StandsFor file node := by
    intro file hfile
    rw [← mem_inputs_iff_exists_standsFor hgraph, hinputs]
    revert file
    decide +kernel
  obtain ⟨plan, hplan, _, hcompile⟩ := (named_files_exact hsome hgraph).2.1 hknown
  exact ⟨hsome, graph, hgraph, hknown, plan, hplan, hcompile⟩

/-- A file that is named by way of the directory around the project is unknown, although there is a
node at its place. -/
theorem named_around_is_unknown :
    ∃ graph, (sideways.buildGraph sidewaysConfig []).value = .ok graph ∧
      (∃ node ∈ graph.nodes, sideways.namesOf "../s/a.tl" = sideways.namesOf node.input) ∧
      ∃ unknown,
        (sideways.plan sidewaysConfig ["../s/a.tl"] false).value =
          .error (.unknownFiles unknown) := by
  obtain ⟨graph, hgraph, hinputs⟩ := exists_inputs_sideways
  refine ⟨graph, hgraph, ?_, sideways.unknownFiles graph ["../s/a.tl"], ?_⟩
  · obtain ⟨node, hnode, hinput⟩ : ∃ node ∈ graph.nodes, node.input = "a.tl" :=
      Graph.mem_inputs.1 (by simp [hinputs])
    refine ⟨node, hnode, ?_⟩
    rw [hinput]
    decide +kernel
  · rw [value_plan hgraph]
    apply planGraph_of_unknown
    have hmem : ("../s/a.tl" : Text) ∈ sideways.unknownFiles graph ["../s/a.tl"] := by
      rw [mem_unknownFiles, hinputs]
      decide +kernel
    exact List.ne_nil_of_mem hmem

end Workspace

end Rebuild
