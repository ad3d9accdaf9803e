import Rebuild.Proofs.Project.Artifacts

/-!
# The graph of a project after its outputs have been written

Writing outputs leaves the text of every source file as it is, and may only hide modules that were
found before.  So the project is still built into a graph, of some or all of its nodes, each with
the output it had and with no dependents that it did not have.
-/

namespace Rebuild.Workspace

variable {before after first second ws : Workspace} {places : List (List Text × File)}
  {text directory reference found : Text} {entry : Entry} {file : File} {dirs : SearchDirs}
  {rules : ScanRules} {config : Config} {graph full : Graph} {files : List Text}

/-! ## Reading a file in two workspaces -/

theorem scan_eq_of_file (htext : Path.canonical text = text)
    (hfirst : first.locate text = .ok (.file file))
    (hsecond : second.locate text = .ok (.file file)) : second.scan text = first.scan text := by
  have htidy : Path.tidy text = text := by
    rw [← htext, Path.tidy_canonical]
  unfold scan readText readBytes
  rw [htidy]
  dsimp only
  rw [hfirst, hsecond]

theorem scan_of_refusal {refused : AccessError} (htext : Path.canonical text = text)
    (hrefused : refusal? text = some refused) :
    ws.scan text = .failed (.access refused) := by
  have htidy : Path.tidy text = text := by
    rw [← htext, Path.tidy_canonical]
  unfold scan readText readBytes
  rw [htidy]
  dsimp only
  rw [hrefused]
  cases refused with
  | fault what path => exact absurd hrefused refusal?_ne_fault
  | embeddedNul => rfl
  | unencodable error => rfl

theorem exists_scan_rejected (htext : Path.canonical text = text) (hask : refusal? text = none)
    (hnone : ∀ file, ws.locate text ≠ .ok (.file file)) :
    ∃ reason, ws.scan text = .rejected reason := by
  have htidy : Path.tidy text = text := by
    rw [← htext, Path.tidy_canonical]
  unfold scan readText readBytes
  rw [htidy]
  dsimp only
  rw [hask]
  cases hlocate : ws.locate text with
  | error => exact ⟨_, rfl⟩
  | ok entry =>
      cases entry with
      | file data => exact (hnone data hlocate).elim
      | folder => exact ⟨_, rfl⟩

/-- When a path leads to a file in both or in neither of two workspaces, the same is read there, but
for the reason why nothing can be read. -/
theorem scan_cases (htext : Path.canonical text = text)
    (hfile : ∀ file, second.locate text = .ok (.file file) →
      first.locate text = .ok (.file file)) :
    second.scan text = first.scan text ∨ ∃ reason, second.scan text = .rejected reason := by
  by_cases hsome : ∃ file, second.locate text = .ok (.file file)
  · obtain ⟨file, hsecond⟩ := hsome
    exact .inl (scan_eq_of_file htext (hfile file hsecond) hsecond)
  · cases hask : refusal? text with
    | some refused =>
        exact .inl ((scan_of_refusal htext hask).trans (scan_of_refusal htext hask).symm)
    | none => exact .inr (exists_scan_rejected htext hask fun file h => hsome ⟨file, h⟩)

/-! ## Written outputs -/

/-- Nothing but outputs has been written. -/
structure WroteOutputs (before after : Workspace) (places : List (List Text × File)) :
    Prop where
  there : before.IsThere
  wrote : Wrote before after places
  outputs : ∀ place ∈ places, Path.IsOutputPlace place.1

namespace WroteOutputs

theorem not_mem_places (hwrote : WroteOutputs before after places)
    (hnot : ¬Path.IsOutputPlace (before.namesOf text)) :
    before.namesOf text ∉ places.map Prod.fst := by
  intro hmem
  obtain ⟨place, hplace, heq⟩ := List.mem_map.1 hmem
  exact hnot (heq ▸ hwrote.outputs place hplace)

theorem locate_after (hwrote : WroteOutputs before after places)
    (htext : Path.canonical text = text) :
    after.locate text = after.top.descend (before.namesOf text) := by
  rw [locate_canonical (hwrote.wrote.isThere hwrote.there) htext, hwrote.wrote.namesOf_eq]

theorem locate_kept (hwrote : WroteOutputs before after places)
    (htext : Path.canonical text = text) (hnot : before.namesOf text ∉ places.map Prod.fst)
    (hlocate : before.locate text = .ok entry) :
    ∃ now, after.locate text = .ok now ∧ entry.Keeps now := by
  rw [locate_canonical hwrote.there htext] at hlocate
  rw [hwrote.locate_after htext]
  exact hwrote.wrote.kept _ hnot entry hlocate

theorem locate_file (hwrote : WroteOutputs before after places)
    (htext : Path.canonical text = text) (hnot : before.namesOf text ∉ places.map Prod.fst) :
    after.locate text = .ok (.file file) ↔ before.locate text = .ok (.file file) := by
  constructor
  · intro hlocate
    rw [hwrote.locate_after htext] at hlocate
    rw [locate_canonical hwrote.there htext]
    refine (hwrote.wrote.file_cases hlocate).resolve_left fun hplace => ?_
    exact hnot (List.mem_map_of_mem (f := Prod.fst) hplace)
  · intro hlocate
    obtain ⟨_, hnow, rfl⟩ := hwrote.locate_kept htext hnot hlocate
    exact hnow

theorem isFile_of_isFile (hwrote : WroteOutputs before after places)
    (htext : Path.canonical text = text) (hfile : before.isFile text = true) :
    after.isFile text = true := by
  obtain ⟨hfree, file, hlocate⟩ := isFile_iff.1 hfile
  refine isFile_iff.2 ⟨hfree, ?_⟩
  by_cases hplace : before.namesOf text ∈ places.map Prod.fst
  · obtain ⟨place, hplace, heq⟩ := List.mem_map.1 hplace
    obtain ⟨data, _, hnow⟩ := hwrote.wrote.written place hplace
    rw [heq] at hnow
    exact ⟨data, (hwrote.locate_after htext).trans hnow⟩
  · exact ⟨file, (hwrote.locate_file htext hplace).2 hlocate⟩

theorem scan_source (hwrote : WroteOutputs before after places)
    (htext : Path.canonical text = text) (hsource : Path.IsSource text) :
    after.scan text = before.scan text ∨ ∃ reason, after.scan text = .rejected reason :=
  scan_cases htext fun _ =>
    (hwrote.locate_file htext (hwrote.not_mem_places (hsource.not_isOutputPlace htext))).1

/-- A module that is found where no output is was found there before. -/
theorem resolve_before (hwrote : WroteOutputs before after places)
    (hfound : after.resolve dirs reference true = some found)
    (hplace : ¬Path.IsOutputPlace (before.namesOf found)) :
    before.resolve dirs reference true = some found := by
  have htext := canonical_of_resolve hfound
  unfold resolve at hfound ⊢
  split at hfound
  next => cases hfound
  next hproper =>
    rw [if_neg hproper]
    obtain ⟨hfile, earlier, later, hcandidates, hearlier⟩ :=
      List.find?_eq_some_iff_append.1 hfound
    apply List.find?_eq_some_iff_append.2
    refine ⟨?_, earlier, later, hcandidates, fun path hpath => ?_⟩
    · obtain ⟨hfree, file, hlocate⟩ := isFile_iff.1 hfile
      have hnot := hwrote.not_mem_places hplace
      exact isFile_iff.2 ⟨hfree, file, (hwrote.locate_file htext hnot).1 hlocate⟩
    · have hcandidate : path ∈ dirs.candidates reference true := by
        rw [hcandidates]
        exact List.mem_append_left _ hpath
      have hnone := hearlier path hpath
      rw [Bool.not_eq_true'] at hnone ⊢
      refine Bool.eq_false_of_not_eq_true fun hbefore => ?_
      rw [hwrote.isFile_of_isFile (canonical_of_mem_candidates hcandidate) hbefore] at hnone
      cases hnone

theorem narrows (hwrote : WroteOutputs before after places)
    (hdirectory : Path.canonical directory = directory) :
    (before.setting dirs (some directory)).Narrows (after.setting dirs (some directory)) where
  here := hwrote.wrote.location
  scope := rfl
  refs := by
    intro path hpath hsource references hrefs
    rcases hwrote.scan_source hpath hsource with hsame | ⟨reason, hrejected⟩
    · exact hsame.symm.trans hrefs
    · cases hrejected.symm.trans hrefs
  failed := by
    intro path hpath hsource error hfailed
    rcases hwrote.scan_source hpath hsource with hsame | ⟨reason, hrejected⟩
    · exact hsame.symm.trans hfailed
    · cases hrejected.symm.trans hfailed
  lookup := by
    intro reference found hfound hkey
    have hfound : after.resolve dirs reference true = some found := hfound
    have hscope : ∀ other, (after.setting dirs (some directory)).scope = some other →
        Path.canonical other = other := by
      rintro _ ⟨⟩
      exact hdirectory
    have hplace := Setting.not_isOutputPlace_of_key hscope (canonical_of_resolve hfound) hkey
    change ¬Path.IsOutputPlace (after.namesOf found) at hplace
    rw [hwrote.wrote.namesOf_eq] at hplace
    exact hwrote.resolve_before hfound hplace

theorem narrowsRoots (hwrote : WroteOutputs before after places)
    (hdirectory : Path.canonical directory = directory) :
    Setting.NarrowsRoots (before.sourceFiles directory rules)
      (after.sourceFiles directory rules) := by
  have htidy : Path.tidy directory = directory := by
    rw [← hdirectory, Path.tidy_canonical]
  intro root hroot hsource
  obtain ⟨folder, hfolder, found, hfound, hadmits, rfl⟩ := mem_sourceFiles_iff.1 hroot
  obtain ⟨hfree, modified, hlocate⟩ := folderAt?_eq_some_iff.1 hfolder
  rw [htidy, hwrote.locate_after hdirectory] at hlocate
  rw [Path.under, Path.canonical_join, ← Path.under] at hsource
  rcases hwrote.wrote.listed _ _ hlocate found.1 found.2 hfound with hplace | ⟨old, hold, hmem⟩
  · obtain ⟨init, name, hnames, hplain, hsuffix⟩ := hwrote.outputs _ hplace
    rcases List.eq_nil_or_concat' found.1 with hnone | ⟨others, other, hothers⟩
    · exact (Folder.ne_nil_of_mem_files hfound hnone).elim
    · -- the file is an output, whose path has another extension
      dsimp only at hnames
      rw [hothers, ← List.append_assoc] at hnames
      have heq := (List.cons.inj (List.append_inj' hnames rfl).2).1
      exact (hsource.not_isOutputPlace_under
        ⟨others, other, hothers, heq ▸ hplain, heq ▸ hsuffix⟩).elim
  · cases old with
    | file =>
        have hnone := congrArg Prod.fst (List.mem_singleton.1 hmem)
        exact (Folder.ne_nil_of_mem_files hfound hnone).elim
    | folder oldModified inner =>
        refine mem_sourceFiles_iff.2 ⟨inner, folderAt?_eq_some_iff.2 ⟨hfree, oldModified, ?_⟩,
          found, hmem, hadmits, rfl⟩
        rw [htidy, locate_canonical hwrote.there hdirectory]
        exact hold

end WroteOutputs

/-! ## Building again -/

/-- Files among which no search fails can be inserted. -/
theorem exists_insertEvery {scope : Option Text} {spared : Set Text}
    (hspares : (ws.setting dirs scope).Spares spared)
    (hfiles : ∀ file ∈ files, Path.IsSource (Path.canonical file) →
      Path.canonical file ∈ spared) (graph : Graph) :
    ∃ full, ws.insertEvery dirs scope graph files = .ok full := by
  induction files generalizing graph with
  | nil => exact ⟨graph, rfl⟩
  | cons file rest ih =>
      cases hverdict : (ws.insertFile dirs scope graph file).verdict with
      | ok paths =>
          rw [insertEvery_cons hverdict]
          exact ih (fun other hother => hfiles other (List.mem_cons_of_mem file hother)) _
      | error stop =>
          have hstop := Insertion.stop_of_verdict hverdict
          cases stop with
          | tooDeep => exact (ws.verdict_ne_tooDeep dirs scope graph file hverdict).elim
          | failed failure =>
              have hgood := hspares.visit_stop_ne_failed (ws.answers_sources dirs scope)
                ws.searchDepth file (.start graph ()) (hfiles file List.mem_cons_self) (by nofun)
              rw [insertFile, Graph.insert, Insertion.stop_finish] at hstop
              exact (hgood failure hstop).elim

theorem built_insertEvery {scope : Option Text} {roots : List Text}
    (hbuilt : (ws.setting dirs scope).Built roots graph)
    (hfull : ws.insertEvery dirs scope graph files = .ok full) :
    (ws.setting dirs scope).Built (roots ++ files) full := by
  induction files generalizing roots graph with
  | nil =>
      cases hfull
      rwa [List.append_nil]
  | cons file rest ih =>
      obtain ⟨paths, hverdict⟩ := exists_verdict_of_insertEvery hfull
      rw [insertEvery_cons hverdict] at hfull
      rw [List.append_cons]
      exact ih (.insert hbuilt (ws.answers_sources dirs scope) ws.searchDepth file () hverdict)
        hfull

/-- A graph among whose nodes are all those of the second, with all their dependents. -/
def Covers (first second : Graph) : Prop :=
  ∀ node ∈ second.nodes, ∃ old ∈ first.nodes, old.input = node.input ∧
    old.output = node.output ∧ ∀ path ∈ node.dependents, path ∈ old.dependents

theorem covers_withOutputs {output : Text → Option Text} (hgraph : graph.Exact)
    (hfull : full.Exact) (hinputs : ∀ path ∈ full.inputs, path ∈ graph.inputs)
    (hedges : ∀ source target, full.Edge source target → graph.Edge source target) :
    Covers (graph.withOutputs output) (full.withOutputs output) := by
  intro node hnode
  obtain ⟨later, hlater, rfl⟩ := Graph.mem_nodes_withOutputs.1 hnode
  obtain ⟨old, hold, hsame⟩ := Graph.mem_inputs.1 (hinputs _ (Graph.input_mem_inputs hlater))
  refine ⟨_, Graph.mem_nodes_withOutputs.2 ⟨old, hold, rfl⟩, hsame, congrArg output hsame, ?_⟩
  intro path hpath
  have hpath : path ∈ later.dependents := hpath
  rw [← Graph.dependentsAt_input hlater, hfull] at hpath
  change path ∈ old.dependents
  rw [← Graph.dependentsAt_input hold, hgraph, hsame]
  exact Relation.TransGen.mono hedges _ _ hpath

/-- After outputs have been written, the project is built into a graph that the earlier one
covers. -/
theorem WroteOutputs.exists_buildGraph (hwrote : WroteOutputs before after places)
    (hgraph : (before.buildGraph config []).value = .ok graph) :
    ∃ next, (after.buildGraph config []).value = .ok next ∧ Covers graph next := by
  obtain ⟨inner, hbuilt, hgood, rfl⟩ := exists_built_of_buildGraph hgraph
  have hdir := config.canonical_projectDir before.location
  have hlocation := hwrote.wrote.location
  have hnarrows : (before.projectSetting config).Narrows (after.projectSetting config) := by
    unfold projectSetting
    rw [hlocation]
    exact hwrote.narrows hdir
  have hroots :
      Setting.NarrowsRoots (before.rootFiles config []) (after.rootFiles config []) := by
    change Setting.NarrowsRoots (before.sourceFiles (config.projectDir before.location) _)
      (after.sourceFiles (config.projectDir after.location) _)
    rw [hlocation]
    exact hwrote.narrowsRoots hdir
  obtain ⟨full, hfull⟩ := exists_insertEvery (hnarrows.spares hbuilt)
    (fun root hroot => Setting.Narrows.root_mem_goodFiles hroots hbuilt hroot) .empty
  have hbuiltFull := built_insertEvery .empty hfull
  rw [List.nil_append] at hbuiltFull
  have hedges : ∀ source target, full.Edge source target → inner.Edge source target :=
    fun _ _ => hnarrows.edge hroots hbuilt hbuiltFull
  have hacyclic : ¬full.IsCircular := fun ⟨path, hcycle⟩ =>
    hgood ⟨path, Relation.TransGen.mono hedges _ _ hcycle⟩
  have hvalue := scanOutcome_insertAll Graph.exact_empty Graph.not_isCircular_empty hfull
  refine ⟨full.withOutputs (config.outputOf after.location), ?_, ?_⟩
  · rw [value_buildGraph, hvalue.eq_ok hacyclic]
    rfl
  · rw [hlocation]
    exact covers_withOutputs hbuilt.inserted.exact hbuiltFull.inserted.exact
      (hnarrows.inputs_subset hroots hbuilt hbuiltFull) hedges

end Rebuild.Workspace
