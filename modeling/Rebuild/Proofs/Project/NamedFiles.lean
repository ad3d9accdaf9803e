import Rebuild.Proofs.Project.Placement

/-!
# Files that are named under several paths

A graph has one node for each path text, and a text is not compared with the files it leads to.  The
text of a named file is its canonical form, a module of the source directory is recorded as a path
under that directory, and where one of these leaves a folder by `..` the two may differ and still
name one place.  In no other way does a file get two nodes; without `..` none does.
-/

namespace Rebuild

namespace Path

variable {directory text : Text} {first second : List Text}

theorem under_append (hfirst : ∀ name ∈ first, IsPlain name)
    (hsecond : ∀ name ∈ second, IsPlain name) :
    under directory (first ++ second) = under (under directory first) second := by
  have hboth : ∀ name ∈ first ++ second, IsPlain name := by
    intro name hname
    exact (List.mem_append.1 hname).elim (hfirst name) (hsecond name)
  rw [under_eq_render hboth, under_eq_render hsecond, ofText_under hfirst, List.append_assoc]

/-- A text that leads down from the working directory. -/
def LeadsDown (text : Text) : Prop :=
  ∃ names, (∀ name ∈ names, IsPlain name) ∧ text = under "." names

/-- Without `..` a relative text leads down. -/
theorem leadsDown_of_relative (htext : canonical text = text) (hrelative : isAbsolute text = false)
    (hup : (".." : Text) ∉ segments text) : LeadsDown text := by
  have hnormal := isNormal_ofText text
  have hroot : (ofText text).root = .relative := by
    by_contra hrooted
    rw [(isAbsolute_eq_true_iff text).2 hrooted] at hrelative
    cases hrelative
  have hback : .char '\\' ∉ text.toList := htext ▸ backslash_not_mem_canonical text
  have hplain : ∀ name ∈ (ofText text).names, IsPlain name := by
    intro name hname
    have hne := hnormal.stack.ne_of_mem (List.mem_reverse.2 hname)
    refine ⟨⟨hne.1, hne.2, ?_⟩, hnormal.slashFree name hname, backslashFree_ofText text name hname⟩
    rintro rfl
    rw [← parse_eq_ofText hback] at hname
    exact hup (Root.mem_reduce hname)
  refine ⟨(ofText text).names, hplain, ?_⟩
  rw [under_eq_render hplain, ofText_dot, List.nil_append, ← hroot]
  exact htext.symm

/-- Texts that lead down to one place are the same. -/
theorem LeadsDown.eq_of_absolute_eq {other : Text} {here : Location} (htext : LeadsDown text)
    (hother : LeadsDown other) (hsame : here.absolute text = here.absolute other) :
    text = other := by
  obtain ⟨names, hnames, rfl⟩ := htext
  obtain ⟨others, hothers, rfl⟩ := hother
  rw [Location.eq_of_absolute_under_eq canonical_dot hnames hothers hsame]

theorem LeadsDown.under (htext : LeadsDown text) (hnames : ∀ name ∈ first, IsPlain name) :
    LeadsDown (under text first) := by
  obtain ⟨names, htext, rfl⟩ := htext
  refine ⟨names ++ first, fun name hname => ?_, (under_append htext hnames).symm⟩
  exact (List.mem_append.1 hname).elim (htext name) (hnames name)

theorem LeadsDown.plainBelow (htext : LeadsDown text) (here : Location) :
    here.PlainBelow text := by
  obtain ⟨names, hnames, rfl⟩ := htext
  exact Location.plainBelow_under hnames

theorem isAbsolute_join (hdirectory : isAbsolute directory = true) (text : Text) :
    isAbsolute (join directory text) = true := by
  rw [isAbsolute_eq_true_iff] at hdirectory ⊢
  rw [ofText_join]
  by_cases hrelative : (ofText text).root = .relative
  · rw [append_of_relative hrelative]
    exact hdirectory
  · rw [append_of_rooted hrelative]
    exact hrelative

end Path

namespace Workspace

variable {ws : Workspace} {config : Config} {graph : Graph} {files : List Text}
  {first second path : Text}

/-- The path `second` is another spelling of a named file, for which there is the path `first`: it
stands for a named file itself, or for the module that lies where the named file does. -/
def Respells (ws : Workspace) (config : Config) (files : List Text) (first second : Text) :
    Prop :=
  ∃ file ∈ files, ws.location.projectRelative file = first ∧
    ((∃ other ∈ files, ws.location.projectRelative other = second) ∨
      ws.location.isInside first (config.projectDir ws.location) = true ∧
        second = Path.join (config.projectDir ws.location)
          (ws.location.relativeTo first (config.projectDir ws.location)))

/-- A file of a project with named files has been named, or it is a module of the source
directory. -/
theorem named_or_module (hsome : files ≠ [])
    (hgraph : (ws.buildGraph config files).value = .ok graph) {node : Node}
    (hnode : node ∈ graph.nodes) :
    (∃ file ∈ files, ws.location.projectRelative file = node.input) ∨
      ∃ path found, (ws.projectSetting config).Finds path found ∧
        (ws.projectSetting config).Expandable found ∧
        (ws.projectSetting config).key found = node.input := by
  obtain ⟨inner, hbuilt, _, rfl⟩ := exists_built_of_buildGraph hgraph
  have hpath : node.input ∈ inner.inputs := by
    rw [← Graph.inputs_withOutputs]
    exact Graph.input_mem_inputs hnode
  rcases hbuilt.holds.root_or_module hpath with
    ⟨root, hroot, hinput⟩ | ⟨source, _, found, hfinds, hexpandable, hinput⟩
  · rw [rootFiles, List.isEmpty_eq_false_iff.2 hsome, if_neg Bool.false_ne_true] at hroot
    obtain ⟨file, hfile, rfl⟩ := List.mem_map.1 hroot
    rw [Location.canonical_projectRelative] at hinput
    exact .inl ⟨file, hfile, hinput⟩
  · exact .inr ⟨source, found, hfinds, hexpandable, hinput⟩

theorem named_or_under (hbelow : ws.location.PlainBelow (config.projectDir ws.location))
    (hsome : files ≠ []) (hgraph : (ws.buildGraph config files).value = .ok graph) {node : Node}
    (hnode : node ∈ graph.nodes) :
    (∃ file ∈ files, ws.location.projectRelative file = node.input) ∨
      (ws.location.absolute (config.projectDir ws.location)).root = .single ∧
        ∃ names, (∀ name ∈ names, Path.IsPlain name) ∧
          node.input = Path.under (config.projectDir ws.location) names := by
  refine (named_or_module hsome hgraph hnode).imp_right ?_
  rintro ⟨path, found, hfinds, hexpandable, hinput⟩
  obtain ⟨names, hplain, hinside, hkey⟩ := exists_under_of_expandable hbelow hfinds hexpandable
  exact ⟨(Location.isInside_iff.1 hinside).1, names, hplain, hinput.symm.trans hkey⟩

/-- A path at a place under the source directory lies inside it, and the module at that place is
recorded under the names of the place. -/
theorem join_relativeTo_of_absolute_eq {names : List Text}
    (hplain : ∀ name ∈ names, Path.IsPlain name)
    (hroot : (ws.location.absolute (config.projectDir ws.location)).root = .single)
    (hsame : ws.location.absolute path =
      ws.location.absolute (Path.under (config.projectDir ws.location) names)) :
    ws.location.isInside path (config.projectDir ws.location) = true ∧
      Path.join (config.projectDir ws.location)
          (ws.location.relativeTo path (config.projectDir ws.location)) =
        Path.under (config.projectDir ws.location) names := by
  have hnames : (ws.location.absolute path).names =
      (ws.location.absolute (config.projectDir ws.location)).names ++ names := by
    rw [hsame, Location.absolute_under (config.canonical_projectDir ws.location) hplain]
  refine ⟨Location.isInside_iff.2 ⟨hroot, names, hnames⟩, ?_⟩
  rw [Location.relativeTo_of_names hnames, Path.canonical_render_down hplain, Path.under]

theorem eq_or_respells (hbelow : ws.location.PlainBelow (config.projectDir ws.location))
    (hsome : files ≠ []) (hgraph : (ws.buildGraph config files).value = .ok graph)
    {one other : Node} (hone : one ∈ graph.nodes) (hother : other ∈ graph.nodes)
    (hsame : ws.location.absolute one.input = ws.location.absolute other.input) :
    one = other ∨ ws.Respells config files one.input other.input ∨
      ws.Respells config files other.input one.input := by
  rcases named_or_under hbelow hsome hgraph hone with
    ⟨file, hfile, hnamed⟩ | ⟨hroot, names, hplain, hunder⟩
  · refine .inr (.inl ⟨file, hfile, hnamed, ?_⟩)
    rcases named_or_under hbelow hsome hgraph hother with
      hnamed | ⟨hroot, names, hplain, hunder⟩
    · exact .inl hnamed
    · rw [hunder] at hsame ⊢
      obtain ⟨hinside, hjoin⟩ := join_relativeTo_of_absolute_eq hplain hroot hsame
      exact .inr ⟨hinside, hjoin.symm⟩
  · rcases named_or_under hbelow hsome hgraph hother with
      ⟨file, hfile, hnamed⟩ | ⟨_, others, hothers, hunder'⟩
    · rw [hunder] at hsame ⊢
      obtain ⟨hinside, hjoin⟩ := join_relativeTo_of_absolute_eq hplain hroot hsame.symm
      exact .inr (.inr ⟨file, hfile, hnamed, .inr ⟨hinside, hjoin.symm⟩⟩)
    · left
      rw [hunder, hunder'] at hsame
      have hnames := Location.eq_of_absolute_under_eq (config.canonical_projectDir ws.location)
        hplain hothers hsame
      exact Graph.eq_of_input_eq hone hother (by rw [hunder, hunder', hnames])

/-- Where neither the source directory nor a named file is reached by way of `..`, nothing is. -/
theorem leadsDown_of_node (hsome : files ≠ [])
    (hgraph : (ws.buildGraph config files).value = .ok graph)
    (hdown : ∀ text ∈ config.sourceDir :: files,
      (".." : Text) ∉ Path.segments (ws.location.projectRelative text)) {node : Node}
    (hnode : node ∈ graph.nodes) : Path.LeadsDown node.input := by
  have hrelative := (isSource_of_buildGraph hgraph hnode).relative
  rcases named_or_module hsome hgraph hnode with
    ⟨file, hfile, hnamed⟩ | ⟨path, found, hfinds, hexpandable, hkey⟩
  · rw [← hnamed] at hrelative ⊢
    exact Path.leadsDown_of_relative (ws.location.canonical_projectRelative file) hrelative
      (hdown file (List.mem_cons_of_mem _ hfile))
  · have hjoin : Path.join (config.projectDir ws.location)
        (ws.location.relativeTo found (config.projectDir ws.location)) = node.input :=
      (if_pos hexpandable).symm.trans hkey
    have hdirRelative : Path.isAbsolute (config.projectDir ws.location) = false := by
      refine Bool.eq_false_of_not_eq_true fun habsolute => ?_
      rw [← hjoin, Path.isAbsolute_join habsolute] at hrelative
      cases hrelative
    have hdir : Path.LeadsDown (config.projectDir ws.location) :=
      Path.leadsDown_of_relative (config.canonical_projectDir ws.location) hdirRelative
        (hdown config.sourceDir List.mem_cons_self)
    obtain ⟨names, hnames, _, hunder⟩ :=
      exists_under_of_expandable (hdir.plainBelow ws.location) hfinds hexpandable
    rw [← hkey, hunder]
    exact hdir.under hnames

/-- A file has one node where neither the source directory nor a named file is reached by way of
`..`.  Otherwise it has two only where it is named, and then under another name as well or as a
module of the source directory, unless a folder above has a backslash in its name. -/
theorem one_node_per_file (hsome : files ≠ [])
    (hgraph : (ws.buildGraph config files).value = .ok graph) :
    ((∀ text ∈ config.sourceDir :: files,
        (".." : Text) ∉ Path.segments (ws.location.projectRelative text)) →
      ∀ one ∈ graph.nodes, ∀ other ∈ graph.nodes,
        ws.location.absolute one.input = ws.location.absolute other.input → one = other) ∧
      ((∀ name ∈ ws.location, Path.IsPlain name) →
        ∀ one ∈ graph.nodes, ∀ other ∈ graph.nodes,
          ws.location.absolute one.input = ws.location.absolute other.input →
            one = other ∨ ws.Respells config files one.input other.input ∨
              ws.Respells config files other.input one.input) := by
  constructor
  · intro hdown one hone other hother hsame
    have hfirst := leadsDown_of_node hsome hgraph hdown hone
    have hsecond := leadsDown_of_node hsome hgraph hdown hother
    exact Graph.eq_of_input_eq hone hother (hfirst.eq_of_absolute_eq hsecond hsame)
  · intro hhere one hone other hother
    exact eq_or_respells (Location.plainBelow_of_isPlain hhere _) hsome hgraph hone hother

theorem exists_buildGraph_sideways_named :
    ∃ graph, (sideways.buildGraph sidewaysConfig ["/s/b.tl", "./a.tl"]).value = .ok graph ∧
      graph.inputs = (["b.tl", "a.tl"] : List Text) :=
  exists_ok_of_map_toOption (by decide +kernel)

theorem one_node_per_file_sideways :
    (["/s/b.tl", "./a.tl"] : List Text) ≠ [] ∧
      (∀ text ∈ ([sidewaysConfig.sourceDir, "/s/b.tl", "./a.tl"] : List Text),
        (".." : Text) ∉ Path.segments (sideways.location.projectRelative text)) ∧
      ∃ graph, (sideways.buildGraph sidewaysConfig ["/s/b.tl", "./a.tl"]).value = .ok graph ∧
        graph.inputs = (["b.tl", "a.tl"] : List Text) ∧
        ∀ one ∈ graph.nodes, ∀ other ∈ graph.nodes,
          sideways.location.absolute one.input = sideways.location.absolute other.input →
            one = other := by
  have hsome : (["/s/b.tl", "./a.tl"] : List Text) ≠ [] := List.cons_ne_nil _ _
  have hdown : ∀ text ∈ ([sidewaysConfig.sourceDir, "/s/b.tl", "./a.tl"] : List Text),
      (".." : Text) ∉ Path.segments (sideways.location.projectRelative text) := by
    decide +kernel
  obtain ⟨graph, hgraph, hinputs⟩ := exists_buildGraph_sideways_named
  exact ⟨hsome, hdown, graph, hgraph, hinputs, (one_node_per_file hsome hgraph).1 hdown⟩

/-- A project with named files that is built with two nodes for one file. -/
def SplitsFile (ws : Workspace) (config : Config) (files : List Text) : Prop :=
  ∃ graph, (ws.buildGraph config files).value = .ok graph ∧
    ∃ one ∈ graph.nodes, ∃ other ∈ graph.nodes, one ≠ other ∧
      ws.location.absolute one.input = ws.location.absolute other.input

theorem splitsFile_of_inputs (hgraph : (ws.buildGraph config files).value = .ok graph)
    (hfirst : first ∈ graph.inputs) (hsecond : second ∈ graph.inputs) (hne : first ≠ second)
    (hsame : ws.location.absolute first = ws.location.absolute second) :
    ws.SplitsFile config files := by
  obtain ⟨one, hone, rfl⟩ := Graph.mem_inputs.1 hfirst
  obtain ⟨other, hother, rfl⟩ := Graph.mem_inputs.1 hsecond
  refine ⟨graph, hgraph, one, hone, other, hother, ?_, hsame⟩
  rintro rfl
  exact hne rfl

/-- A file that is named twice, once by way of the directory around the project. -/
theorem sideways_splits_file : sideways.SplitsFile .default ["b.tl", "../s/b.tl"] := by
  have hbuilt : ∃ graph,
      (sideways.buildGraph .default ["b.tl", "../s/b.tl"]).value = .ok graph ∧
        graph.inputs = (["b.tl", "../s/b.tl"] : List Text) :=
    exists_ok_of_map_toOption (by decide +kernel)
  obtain ⟨graph, hgraph, hinputs⟩ := hbuilt
  have hfirst : ("b.tl" : Text) ∈ graph.inputs := by simp [hinputs]
  have hsecond : ("../s/b.tl" : Text) ∈ graph.inputs := by simp [hinputs]
  exact splitsFile_of_inputs hgraph hfirst hsecond (by decide) (by decide +kernel)

end Workspace

end Rebuild
