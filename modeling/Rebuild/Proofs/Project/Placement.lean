import Rebuild.Proofs.FileTree.Walk
import Rebuild.Proofs.Path.LastName
import Rebuild.Proofs.Project.Plan

/-!
# The places of source files and outputs

Every file of a scanned project is written as a path under the source directory, whether the scan
has found it or a module leads to it, and its output is a path under one directory, with the same
names up to the extension of the last.  Paths under one directory differ in their names, so files
and outputs keep apart; and no output lies where a source file is, since their extensions differ.
-/

namespace Rebuild

namespace Path

variable {directory other text name : Text} {init names : List Text}

theorem under_eq_render (hnames : ∀ name ∈ names, IsPlain name) :
    under directory names =
      render ⟨(ofText directory).root, (ofText directory).names ++ names⟩ := by
  rw [← ofText_under hnames]
  exact (canonical_join directory (down names).render).symm

theorem under_nil (hdirectory : canonical directory = directory) :
    under directory [] = directory := by
  rw [under_eq_render fun _ hname => (List.not_mem_nil hname).elim, List.append_nil]
  exact hdirectory

/-- Without names the text is empty, which reads as a dot does. -/
theorem join_intercalate (directory : Text) (names : List Text) :
    join directory (Text.intercalate "/" names) = under directory names := by
  have hsame : ofText (Text.intercalate "/" names) = ofText (down names).render := by
    unfold render
    split
    next hnone =>
      have hnames : names = [] := hnone.2
      rw [hnames]
      decide +kernel
    next => rw [down, Root.text, Text.empty_append]
  rw [under, join, hsame, join]

/-- A text that names a source file below a directory, by way of the names of folders. -/
structure IsSourceUnder (directory : Text) (init : List Text) (name text : Text) : Prop where
  plain : ∀ other ∈ init ++ [name], IsPlain other
  source : IsSourceName name
  text_eq : text = under directory (init ++ [name])

theorem isPlain_outputExtension : IsPlain Config.outputExtension := by
  refine ⟨⟨by decide, by decide, by decide⟩, by decide, by decide⟩

/-- The names of the output that belongs to a source file with the given names. -/
def outputNames (init : List Text) (name : Text) : List Text :=
  init ++ [stemOf name ++ Config.outputExtension]

theorem isPlain_outputNames (hplain : ∀ other ∈ init ++ [name], IsPlain other) :
    ∀ other ∈ outputNames init name, IsPlain other := by
  intro other hother
  rcases List.mem_append.1 hother with hother | hother
  · exact hplain other (List.mem_append_left _ hother)
  · have hname := hplain name (List.mem_append_right _ List.mem_cons_self)
    rw [List.mem_singleton.1 hother]
    exact isPlain_stemOf_append hname.slashFree hname.backslashFree isPlain_outputExtension
      (by decide)

theorem withExtension_under (hplain : ∀ other ∈ init ++ [name], IsPlain other) :
    withExtension (under directory (init ++ [name])) Config.outputExtension =
      under directory (outputNames init name) := by
  have hnames : (ofText (under directory (init ++ [name]))).names =
      ((ofText directory).names ++ init) ++ [name] := by
    rw [ofText_under hplain, List.append_assoc]
  rw [withExtension_of_names hnames, ofText_under hplain,
    under_eq_render (isPlain_outputNames hplain), outputNames, List.append_assoc]

namespace IsSourceUnder

theorem canonical_eq (hunder : IsSourceUnder directory init name text) :
    canonical text = text := by
  rw [hunder.text_eq]
  exact canonical_join directory _

theorem names_eq (hunder : IsSourceUnder directory init name text) :
    (ofText text).names = ((ofText directory).names ++ init) ++ [name] := by
  rw [hunder.text_eq, ofText_under hunder.plain, List.append_assoc]

theorem isDeclaration_eq (hunder : IsSourceUnder directory init name text) :
    isDeclaration text = declarationSuffix.toList.isSuffixOf name.toList := by
  rw [← hunder.canonical_eq, isDeclaration_canonical_of_names hunder.names_eq]

end IsSourceUnder

theorem isDeclaration_iff (htext : canonical text = text) :
    isDeclaration text = true ↔ declarationSuffix.toList <:+ text.toList := by
  have hback : .char '\\' ∉ text.toList := htext ▸ backslash_not_mem_canonical text
  rw [isDeclaration, slashed_eq_self hback, List.isSuffixOf_iff_suffix]

/-- Outputs with the same names come from source files with the same names. -/
theorem outputNames_inj {others : List Text} (hname : IsSourceName name)
    (hother : IsSourceName other)
    (hproper : declarationSuffix.toList.isSuffixOf name.toList = false)
    (hotherProper : declarationSuffix.toList.isSuffixOf other.toList = false)
    (hnames : outputNames init name = outputNames others other) :
    init ++ [name] = others ++ [other] := by
  obtain ⟨hinit, hlast⟩ := List.append_inj' hnames rfl
  have hstem : stemOf name = stemOf other :=
    Text.append_left_inj _ |>.1 (List.cons.inj hlast).1
  rw [hinit, ← hname.stemOf_append hproper, ← hother.stemOf_append hotherProper, hstem]

theorem outputNames_ne {others : List Text} (hother : IsSourceName other)
    (first second : List Text) :
    first ++ outputNames init name ≠ second ++ (others ++ [other]) := by
  intro hnames
  rw [outputNames, ← List.append_assoc, ← List.append_assoc] at hnames
  have hlast := (List.cons.inj (List.append_inj' hnames rfl).2).1
  have hchars := congrArg (fun name => name.toList.getLast?) hlast
  have houtput : Config.outputExtension.toList.getLast? = some (.char 'a') := by decide
  have hsource : sourceExtension.toList.getLast? = some (.char 'l') := by decide
  rw [hother.toList_eq, Text.toList_append, List.getLast?_append, List.getLast?_append, houtput,
    hsource] at hchars
  exact absurd (Option.some.inj hchars) (by decide)

end Path

namespace Config

variable {config : Config} {here : Location} {init : List Text} {name text : Text}

/-- The directory below which the outputs lie: the build directory, or else the source directory. -/
def artifactDir (config : Config) (here : Location) : Text :=
  match config.buildDir with
  | none => config.projectDir here
  | some buildDir =>
    if buildDir = "" then config.projectDir here else here.projectRelative buildDir

theorem canonical_projectDir (config : Config) (here : Location) :
    Path.canonical (config.projectDir here) = config.projectDir here :=
  here.canonical_projectRelative config.sourceDir

theorem canonical_artifactDir (config : Config) (here : Location) :
    Path.canonical (config.artifactDir here) = config.artifactDir here := by
  unfold artifactDir
  split
  next => exact config.canonical_projectDir here
  next =>
    split
    next => exact config.canonical_projectDir here
    next => exact here.canonical_projectRelative _

theorem isInside_projectDir_of_isSourceUnder
    (hrelative : Path.isAbsolute (config.projectDir here) = false)
    (hunder : Path.IsSourceUnder (config.projectDir here) init name text) :
    here.isInside text (config.projectDir here) = true := by
  have hdir := config.canonical_projectDir here
  have hroot : (Path.ofText (config.projectDir here)).root = .relative := by
    by_contra hrooted
    rw [(Path.isAbsolute_eq_true_iff _).2 hrooted] at hrelative
    cases hrelative
  apply Location.isInside_iff.2
  constructor
  · rw [Location.absolute_of_canonical here hdir, Path.append_of_relative hroot]
    rfl
  · rw [hunder.text_eq, Location.absolute_under hdir hunder.plain]
    exact ⟨_, rfl⟩

/-- The output of a source file lies below the directory of outputs as the file itself lies below
the source directory. -/
theorem outputOf_of_isSourceUnder
    (hrelative : Path.isAbsolute (config.projectDir here) = false)
    (hunder : Path.IsSourceUnder (config.projectDir here) init name text) :
    config.outputOf here text =
      if Path.declarationSuffix.toList.isSuffixOf name.toList then none
      else some (Path.under (config.artifactDir here) (Path.outputNames init name)) := by
  have hbeside : Path.withExtension (Path.under (config.projectDir here) (init ++ [name]))
      outputExtension = Path.under (config.projectDir here) (Path.outputNames init name) :=
    Path.withExtension_under hunder.plain
  have hbelow (directory : Text) :
      Path.join directory (here.relativeTo text (config.projectDir here)) =
        Path.under directory (init ++ [name]) := by
    rw [hunder.text_eq, Location.relativeTo_under (config.canonical_projectDir here) hunder.plain,
      Path.under]
  rw [← hunder.text_eq] at hbeside
  unfold outputOf artifactDir
  rw [hunder.isDeclaration_eq]
  split
  next => rfl
  next =>
    cases config.buildDir with
    | none => exact congrArg some hbeside
    | some buildDir =>
        have hinside := isInside_projectDir_of_isSourceUnder hrelative hunder
        dsimp only
        rw [hbelow, Path.withExtension_under hunder.plain, hbeside, hinside]
        by_cases hempty : buildDir = "" <;> simp [hempty]

end Config

namespace Workspace

variable {ws : Workspace} {config : Config} {graph : Graph} {directory file path : Text}
  {folder : Folder} {rules : ScanRules}

/-- Whether the names of the working directory and those that lead to files are proper names without
backslashes. -/
structure HasPlainNames (ws : Workspace) : Prop where
  location : ∀ name ∈ ws.location, Path.IsPlain name
  files : ∀ file ∈ ws.root.files, ∀ name ∈ file.1, Path.IsPlain name

theorem folderAt?_eq_some_iff {text : Text} :
    ws.folderAt? text = some folder ↔
      Askable text ∧ ∃ modified, ws.locate (Path.tidy text) = .ok (.folder modified folder) := by
  rw [← refusal?_eq_none_iff]
  unfold folderAt?
  split
  next modified inner hnone hlocate => simp [hnone, hlocate]
  next hno => exact iff_of_false nofun fun ⟨hnone, modified, h⟩ => hno modified folder hnone h

theorem mem_sourceFiles_iff :
    file ∈ ws.sourceFiles directory rules ↔
      ∃ folder, ws.folderAt? directory = some folder ∧
        ∃ found ∈ folder.files, rules.admits found.1 = true ∧
          file = Path.under directory found.1 := by
  unfold sourceFiles
  split
  next hnone => simp [hnone]
  next folder hfolder =>
    rw [hfolder]
    simp only [List.mem_map, List.mem_filter, Order.mem_sortBy, Path.join_intercalate]
    constructor
    · rintro ⟨_, ⟨⟨found, hfound, rfl⟩, hadmits⟩, rfl⟩
      exact ⟨folder, rfl, found, hfound, hadmits, rfl⟩
    · rintro ⟨_, ⟨⟩, found, hfound, hadmits, rfl⟩
      exact ⟨found.1, ⟨⟨found, hfound, rfl⟩, hadmits⟩, rfl⟩

/-- What holds of the names on all ways to files holds of those in a folder. -/
theorem forall_names_of_folderAt? {P : Text → Prop}
    (hnames : ∀ file ∈ ws.root.files, ∀ name ∈ file.1, P name)
    (hfolder : ws.folderAt? directory = some folder) :
    ∀ file ∈ folder.files, ∀ name ∈ file.1, P name := by
  apply of_folderAt? (P := fun tree => ∀ file ∈ tree.files, ∀ name ∈ file.1, P name) hnames _
    hfolder
  intro tree inner name modified htree hfind file hfile other hother
  exact htree (name :: file.1, file.2) (Folder.mem_files_of_find? hfind hfile) other
    (List.mem_cons_of_mem name hother)

theorem HasPlainNames.of_folderAt? (hplain : ws.HasPlainNames)
    (hfolder : ws.folderAt? directory = some folder) :
    ∀ file ∈ folder.files, ∀ name ∈ file.1, Path.IsPlain name :=
  forall_names_of_folderAt? hplain.files hfolder

theorem canonical_of_mem_candidates {dirs : SearchDirs} {reference : Text}
    {preferSource : Bool} (hpath : path ∈ dirs.candidates reference preferSource) :
    Path.canonical path = path := by
  obtain ⟨_, _, hpath⟩ := List.mem_flatMap.1 hpath
  obtain ⟨_, _, rfl⟩ := List.mem_map.1 hpath
  exact Path.canonical_join _ _

theorem canonical_of_resolve {dirs : SearchDirs} {reference : Text} {preferSource : Bool}
    (hfound : ws.resolve dirs reference preferSource = some path) :
    Path.canonical path = path := by
  unfold resolve at hfound
  split at hfound
  next => cases hfound
  next => exact canonical_of_mem_candidates (List.mem_of_find?_eq_some hfound)

/-- A module inside the source directory is recorded as a path under it. -/
theorem exists_under_of_expandable {found : Text}
    (hbelow : ws.location.PlainBelow (config.projectDir ws.location))
    (hfinds : (ws.projectSetting config).Finds path found)
    (hexpandable : (ws.projectSetting config).Expandable found) :
    ∃ names, (∀ name ∈ names, Path.IsPlain name) ∧
      ws.location.isInside found (config.projectDir ws.location) = true ∧
      (ws.projectSetting config).key found =
        Path.under (config.projectDir ws.location) names := by
  obtain ⟨_, _, reference, _, hfound⟩ := hfinds
  change ws.resolve (config.moduleSearch ws.location) reference true = some found at hfound
  have hback : .char '\\' ∉ found.toList := by
    rw [← canonical_of_resolve hfound]
    exact Path.backslash_not_mem_canonical found
  have hinside : ws.location.isInside found (config.projectDir ws.location) = true := hexpandable
  obtain ⟨names, hplain, _, hunder⟩ := Location.exists_under_of_isInside hbelow hback hinside
  refine ⟨names, hplain, hinside, ?_⟩
  rw [← hunder]
  exact if_pos hinside

theorem exists_root_of_built {setting : Setting Failure} {roots : List Text}
    (hbuilt : setting.Built roots graph) (hpath : path ∈ graph.inputs) : ∃ root, root ∈ roots := by
  cases roots with
  | nil =>
      have hclosed : setting.Closed [] ∅ :=
        ⟨fun _ hroot => (List.not_mem_nil hroot).elim, fun _ hsource => hsource.elim⟩
      exact (hbuilt.holds.needed ∅ hclosed path hpath).elim
  | cons root rest => exact ⟨root, List.mem_cons_self⟩

/-- Every file of a scanned project is a source file below the source directory. -/
theorem exists_isSourceUnder (hplain : ws.HasPlainNames)
    (hgraph : (ws.buildGraph config []).value = .ok graph) {node : Node}
    (hnode : node ∈ graph.nodes) :
    ∃ init name, Path.IsSourceUnder (config.projectDir ws.location) init name node.input := by
  have hprojected := projected_of_buildGraph hgraph
  obtain ⟨inner, hbuilt, _, rfl⟩ := exists_built_of_buildGraph hgraph
  have hdir := config.canonical_projectDir ws.location
  have hpath : node.input ∈ inner.inputs := by
    rw [← Graph.inputs_withOutputs]
    exact Graph.input_mem_inputs hnode
  have hfile := exists_file_of_scan (hprojected.canonical node hnode)
    (hprojected.scanned node hnode)
  have hunder : ∃ names, (∀ name ∈ names, Path.IsPlain name) ∧
      node.input = Path.under (config.projectDir ws.location) names := by
    rcases hbuilt.holds.root_or_module hpath with
      ⟨root, hroot, hinput⟩ | ⟨source, _, found, hfinds, hexpandable, hinput⟩
    · obtain ⟨folder, hfolder, file, hfile, _, rfl⟩ := mem_sourceFiles_iff.1 hroot
      refine ⟨file.1, hplain.of_folderAt? hfolder file hfile, ?_⟩
      rw [← hinput]
      exact Path.canonical_join _ _
    · obtain ⟨names, hnames, _, hkey⟩ :=
        exists_under_of_expandable (Location.plainBelow_of_isPlain hplain.location _) hfinds
          hexpandable
      exact ⟨names, hnames, hinput.symm.trans hkey⟩
  obtain ⟨names, hnames, hinput⟩ := hunder
  rcases List.eq_nil_or_concat' names with rfl | ⟨init, name, rfl⟩
  · -- the source directory itself is a folder, since some file has been found below it
    rw [Path.under_nil hdir] at hinput
    obtain ⟨root, hroot⟩ := exists_root_of_built hbuilt hpath
    obtain ⟨folder, hfolder, _⟩ := mem_sourceFiles_iff.1 hroot
    obtain ⟨_, modified, hdirectory⟩ := folderAt?_eq_some_iff.1 hfolder
    obtain ⟨_, file, hlocate⟩ := hfile
    rw [← hdir, Path.tidy_canonical, hdir, ← hinput, hlocate] at hdirectory
    cases hdirectory
  · have hadmissible := hbuilt.holds.admissible hpath
    obtain ⟨others, other, hothers, hsource⟩ :=
      Path.exists_names_of_extension (hprojected.canonical node hnode) hadmissible.extension
    rw [hinput, Path.ofText_under hnames] at hothers
    dsimp only at hothers
    rw [← List.append_assoc] at hothers
    have hlast := (List.cons.inj (List.append_inj' hothers rfl).2).1
    exact ⟨init, name, hnames, hlast ▸ hsource, hinput⟩

theorem namesOf_under {names : List Text} (hdirectory : Path.canonical directory = directory)
    (hnames : ∀ name ∈ names, Path.IsPlain name) :
    ws.namesOf (Path.under directory names) = ws.namesOf directory ++ names := by
  rw [namesOf, Location.absolute_under hdirectory hnames, namesOf]

section Places

variable {init others : List Text} {name other source : Text}

theorem eq_of_namesOf_eq (hdirectory : Path.canonical directory = directory)
    (hfirst : Path.IsSourceUnder directory init name file)
    (hsecond : Path.IsSourceUnder directory others other source)
    (hnames : ws.namesOf file = ws.namesOf source) : file = source := by
  rw [hfirst.text_eq, hsecond.text_eq, namesOf_under hdirectory hfirst.plain,
    namesOf_under hdirectory hsecond.plain] at hnames
  rw [hfirst.text_eq, hsecond.text_eq, List.append_cancel_left hnames]

theorem exists_output_of_isSourceUnder {output : Text}
    (hrelative : Path.isAbsolute (config.projectDir ws.location) = false)
    (hunder : Path.IsSourceUnder (config.projectDir ws.location) init name file)
    (houtput : config.outputOf ws.location file = some output) :
    Path.declarationSuffix.toList.isSuffixOf name.toList = false ∧
      ws.namesOf output =
        ws.namesOf (config.artifactDir ws.location) ++ Path.outputNames init name := by
  rw [Config.outputOf_of_isSourceUnder hrelative hunder] at houtput
  split at houtput
  next => cases houtput
  next hproper =>
    cases houtput
    exact ⟨Bool.eq_false_of_not_eq_true hproper,
      namesOf_under (config.canonical_artifactDir ws.location)
        (Path.isPlain_outputNames hunder.plain)⟩

theorem namesOf_output_ne {output : Text}
    (hrelative : Path.isAbsolute (config.projectDir ws.location) = false)
    (hfirst : Path.IsSourceUnder (config.projectDir ws.location) init name file)
    (hsecond : Path.IsSourceUnder (config.projectDir ws.location) others other source)
    (houtput : config.outputOf ws.location file = some output) :
    ws.namesOf output ≠ ws.namesOf source := by
  obtain ⟨_, hnames⟩ := exists_output_of_isSourceUnder hrelative hfirst houtput
  rw [hnames, hsecond.text_eq,
    namesOf_under (config.canonical_projectDir ws.location) hsecond.plain]
  exact Path.outputNames_ne hsecond.source _ _

theorem eq_of_namesOf_output_eq {output artifact : Text}
    (hrelative : Path.isAbsolute (config.projectDir ws.location) = false)
    (hfirst : Path.IsSourceUnder (config.projectDir ws.location) init name file)
    (hsecond : Path.IsSourceUnder (config.projectDir ws.location) others other source)
    (houtput : config.outputOf ws.location file = some output)
    (hartifact : config.outputOf ws.location source = some artifact)
    (hsame : ws.namesOf output = ws.namesOf artifact) : file = source := by
  obtain ⟨hproper, hnames⟩ := exists_output_of_isSourceUnder hrelative hfirst houtput
  obtain ⟨hotherProper, hothers⟩ := exists_output_of_isSourceUnder hrelative hsecond hartifact
  rw [hnames, hothers] at hsame
  rw [hfirst.text_eq, hsecond.text_eq,
    Path.outputNames_inj hfirst.source hsecond.source hproper hotherProper
      (List.append_cancel_left hsame)]

end Places

theorem up_not_mem_segments_down {names : List Text}
    (hnames : ∀ name ∈ names, Path.IsPlain name) :
    (".." : Text) ∉ Path.segments (Path.down names).render := by
  rw [Path.up_mem_segments_render_iff (Path.isNormal_down hnames)]
  exact fun hup => (hnames ".." hup).ne_up rfl

/-- Every file of a scanned project has one place, which lies in the source directory, and one
output unless it is a declaration file; all these places differ. -/
theorem scanned_places_distinct (hplain : ws.HasPlainNames)
    (hrelative : Path.isAbsolute (config.projectDir ws.location) = false)
    (hgraph : (ws.buildGraph config []).value = .ok graph) :
    (∀ node ∈ graph.nodes,
      (∃ rest, node.input = Path.join (config.projectDir ws.location) rest ∧
        Path.canonical rest = rest ∧ Path.isAbsolute rest = false ∧
        (".." : Text) ∉ Path.segments rest) ∧
      ws.location.isInside node.input (config.projectDir ws.location) = true ∧
      (node.output = none ↔ Path.declarationSuffix.toList <:+ node.input.toList)) ∧
    ∀ first ∈ graph.nodes, ∀ second ∈ graph.nodes,
      (ws.namesOf first.input = ws.namesOf second.input → first = second) ∧
      ∀ output, first.output = some output →
        ws.namesOf output ≠ ws.namesOf second.input ∧
        ∀ artifact, second.output = some artifact →
          ws.namesOf output = ws.namesOf artifact → first = second := by
  have houtputs := (projected_of_buildGraph hgraph).output
  have hdir := config.canonical_projectDir ws.location
  constructor
  · intro node hnode
    obtain ⟨init, name, hunder⟩ := exists_isSourceUnder hplain hgraph hnode
    refine ⟨⟨(Path.down (init ++ [name])).render, hunder.text_eq,
      Path.canonical_render_down hunder.plain, ?_, up_not_mem_segments_down hunder.plain⟩,
      Config.isInside_projectDir_of_isSourceUnder hrelative hunder, ?_⟩
    · rw [← Bool.not_eq_true, Path.isAbsolute_eq_true_iff, Path.ofText_render_down hunder.plain]
      exact not_not.2 rfl
    · rw [houtputs node hnode, Config.outputOf_of_isSourceUnder hrelative hunder,
        ← Path.isDeclaration_iff hunder.canonical_eq, hunder.isDeclaration_eq]
      simp
  · intro first hfirst second hsecond
    obtain ⟨init, name, hunder⟩ := exists_isSourceUnder hplain hgraph hfirst
    obtain ⟨others, other, hother⟩ := exists_isSourceUnder hplain hgraph hsecond
    rw [houtputs first hfirst, houtputs second hsecond]
    refine ⟨fun hsame => ?_, fun output houtput => ⟨?_, fun artifact hartifact hsame => ?_⟩⟩
    · exact Graph.eq_of_input_eq hfirst hsecond (eq_of_namesOf_eq hdir hunder hother hsame)
    · exact namesOf_output_ne hrelative hunder hother houtput
    · exact Graph.eq_of_input_eq hfirst hsecond
        (eq_of_namesOf_output_eq hrelative hunder hother houtput hartifact hsame)

/-- A project whose modules are searched by way of the directory around it. -/
def sideways : Workspace where
  root :=
    .folder "s" (.ofSeconds 0 0)
      (.file "a.tl" (textFile "require[[b]]") (.file "b.tl" (textFile "")
        (.file "c.d.tl" (textFile "") .empty))) .empty
  rootModified := .ofSeconds 0 0
  location := (["s"] : List Text)

def sidewaysConfig : Config :=
  { Config.default with buildDir := some ("../o" : Text), moduleDirs := (["../s"] : List Text) }

theorem hasPlainNames_sideways : sideways.HasPlainNames where
  location := by decide +kernel
  files := by decide +kernel

theorem exists_buildGraph_sideways :
    ∃ graph, (sideways.buildGraph sidewaysConfig []).value = .ok graph ∧
      graph.nodes.map (fun node => (node.input, node.output)) =
        ([("a.tl", some "../o/a.lua"), ("b.tl", some "../o/b.lua"), ("c.d.tl", none)] :
          List (Text × Option Text)) :=
  exists_ok_of_map_toOption (by decide +kernel)

theorem scanned_places_distinct_sideways :
    sideways.HasPlainNames ∧
      Path.isAbsolute (sidewaysConfig.projectDir sideways.location) = false ∧
      ∃ graph, (sideways.buildGraph sidewaysConfig []).value = .ok graph ∧
        graph.nodes.map (fun node => (node.input, node.output)) =
          ([("a.tl", some "../o/a.lua"), ("b.tl", some "../o/b.lua"), ("c.d.tl", none)] :
            List (Text × Option Text)) ∧
        ∀ first ∈ graph.nodes, ∀ second ∈ graph.nodes,
          sideways.namesOf first.input = sideways.namesOf second.input → first = second := by
  have hrelative : Path.isAbsolute (sidewaysConfig.projectDir sideways.location) = false := by
    decide +kernel
  obtain ⟨graph, hgraph, hnodes⟩ := exists_buildGraph_sideways
  have hplaces := scanned_places_distinct hasPlainNames_sideways hrelative hgraph
  exact ⟨hasPlainNames_sideways, hrelative, graph, hgraph, hnodes,
    fun first hfirst second hsecond => (hplaces.2 first hfirst second hsecond).1⟩

end Workspace

end Rebuild
