import Rebuild.Project.Staleness
import Rebuild.Proofs.Path.Characters
import Rebuild.Proofs.Project.Built

/-!
# Staleness is decided unless an output is refused

Whether a file is stale depends on modification times, and asking for one fails outright on a path
that is refused as it stands.  In the graph of a project every node has been read, so its path leads
to a file and is not refused; only outputs can be, and they get their code points from paths, from
the working directory and from the build directory.
-/

namespace Rebuild

namespace Config

variable {config : Config} {here : Location} {source output : Text}

theorem not_mem_outputOf {point : CodePoint} (hforeign : Path.IsForeign point)
    (hextension : point ∉ outputExtension.toList) (hhere : ∀ name ∈ here, point ∉ name.toList)
    (hbuild : ∀ buildDir, config.buildDir = some buildDir → point ∉ buildDir.toList)
    (hsource : point ∉ source.toList) (houtput : config.outputOf here source = some output) :
    point ∉ output.toList := by
  have hbeside := Path.not_mem_withExtension hforeign hsource hextension
  unfold outputOf at houtput
  split at houtput
  next => cases houtput
  next =>
    dsimp only at houtput
    split at houtput
    next =>
      cases houtput
      exact hbeside
    next buildDir hdir =>
      split at houtput
      next =>
        obtain rfl := Option.some.inj houtput
        refine Path.not_mem_withExtension hforeign (Path.not_mem_join hforeign ?_ ?_) hextension
        · exact Location.not_mem_projectRelative hforeign hhere (hbuild buildDir hdir)
        · exact Location.not_mem_relativeTo hforeign hhere hsource
      next =>
        cases houtput
        exact hbeside

theorem askable_outputOf (hhere : ∀ name ∈ here, Askable name)
    (hbuild : ∀ buildDir, config.buildDir = some buildDir → Askable buildDir)
    (hsource : Askable source) (houtput : config.outputOf here source = some output) :
    Askable output := by
  intro point hbarred
  have hextension : Askable outputExtension := refusal?_eq_none_iff.1 (by decide)
  exact not_mem_outputOf (Path.isForeign_of_isBarred hbarred) (hextension point hbarred)
    (fun name hname => hhere name hname point hbarred)
    (fun buildDir hdir => hbuild buildDir hdir point hbarred) (hsource point hbarred) houtput

end Config

namespace Graph

/-- Every output of the graph can be asked for. -/
def OutputsAskable (graph : Graph) : Prop :=
  ∀ node ∈ graph.nodes, ∀ output, node.output = some output → Askable output

/-- The failure of asking for some output of the graph that is refused. -/
def RefusesOutput (graph : Graph) (failure : Failure) : Prop :=
  ∃ node ∈ graph.nodes, ∃ output refused,
    node.output = some output ∧ refusal? output = some refused ∧ failure = .access refused

theorem exists_refused_of_not_outputsAskable {graph : Graph} (hnot : ¬graph.OutputsAskable) :
    ∃ node ∈ graph.nodes, ∃ output refused,
      node.output = some output ∧ refusal? output = some refused := by
  unfold OutputsAskable at hnot
  push Not at hnot
  obtain ⟨node, hnode, output, houtput, hask⟩ := hnot
  rw [← refusal?_eq_none_iff, ← ne_eq, Option.ne_none_iff_exists'] at hask
  obtain ⟨refused, hrefused⟩ := hask
  exact ⟨node, hnode, output, refused, houtput, hrefused⟩

end Graph

namespace Workspace

variable {ws : Workspace} {config : Config} {graph : Graph} {input : Text} {node : Node}

/-- A canonical path whose references could be read leads to a file. -/
theorem exists_file_of_scan {references : List Text} (hcanonical : Path.canonical input = input)
    (hscan : ws.scan input = .refs references) :
    Askable input ∧ ∃ file, ws.locate input = .ok (.file file) := by
  have htidy : Path.tidy input = input := by
    rw [← hcanonical, Path.tidy_canonical]
  have hbytes : ∃ bytes, ws.readBytes input = .ok bytes := by
    unfold scan readText at hscan
    cases hread : ws.readBytes input with
    | ok bytes => exact ⟨bytes, rfl⟩
    | error error =>
        rw [hread] at hscan
        cases error <;> cases hscan
  obtain ⟨bytes, hbytes⟩ := hbytes
  unfold readBytes at hbytes
  dsimp only at hbytes
  rw [htidy] at hbytes
  split at hbytes
  next => cases hbytes
  next hnone =>
    refine ⟨refusal?_eq_none_iff.1 hnone, ?_⟩
    split at hbytes
    next file hfile => exact ⟨file, hfile⟩
    next => cases hbytes
    next => cases hbytes

/-- A path that can be asked for has a time, or leads nowhere. -/
theorem modified_cases (ws : Workspace) (hask : Askable input) :
    (∃ time, ws.modified input = .ok time) ∨
      ∃ what path, ws.modified input = .error (.fault what path) := by
  unfold modified
  rw [refusal?_eq_none_iff.2 hask]
  dsimp only
  split
  next => exact .inl ⟨_, rfl⟩
  next => exact .inl ⟨_, rfl⟩
  next => exact .inr ⟨_, _, rfl⟩

theorem exists_modified_of_file {file : File} (hask : Askable input)
    (hfile : ws.locate input = .ok (.file file)) : ∃ time, ws.modified input = .ok time := by
  refine ⟨file.modified, ?_⟩
  unfold modified
  rw [refusal?_eq_none_iff.2 hask, hfile]

theorem exists_outputBefore {output : Text} (houtput : Askable output) (hinput : Askable input) :
    ∃ stale, ws.outputBefore output input = .ok stale := by
  unfold outputBefore
  rcases modified_cases ws houtput with ⟨built, hbuilt⟩ | ⟨what, path, hbuilt⟩
  · rw [hbuilt]
    rcases modified_cases ws hinput with ⟨changed, hchanged⟩ | ⟨what, path, hchanged⟩
    · rw [hchanged]
      exact ⟨_, rfl⟩
    · rw [hchanged]
      exact ⟨true, rfl⟩
  · rw [hbuilt]
    exact ⟨true, rfl⟩

theorem exists_anyOutputBefore (hask : graph.OutputsAskable) (time : Timestamp)
    (paths : List Text) :
    ∃ stale, ws.anyOutputBefore graph time paths = .ok stale := by
  induction paths with
  | nil => exact ⟨false, rfl⟩
  | cons path rest ih =>
      unfold anyOutputBefore
      split
      next => exact ih
      next output houtput =>
        obtain ⟨node, hfound, houtput⟩ := Option.bind_eq_some_iff.1 houtput
        have hnode := (Graph.get?_eq_some_iff.1 hfound).1
        rcases modified_cases ws (hask node hnode output houtput) with
          ⟨built, hbuilt⟩ | ⟨what, faulty, hbuilt⟩
        · rw [hbuilt]
          dsimp only
          split
          next => exact ⟨true, rfl⟩
          next => exact ih
        · rw [hbuilt]
          exact ih

theorem Projected.exists_file (hgraph : ws.Projected config graph) (hnode : node ∈ graph.nodes) :
    Askable node.input ∧ ∃ file, ws.locate node.input = .ok (.file file) :=
  exists_file_of_scan (hgraph.canonical node hnode) (hgraph.scanned node hnode)

theorem Projected.exists_needsCompile_of_askable (hgraph : ws.Projected config graph)
    (hask : graph.OutputsAskable) (hnode : node ∈ graph.nodes) :
    ∃ stale, ws.needsCompile (some graph) node = .ok stale := by
  obtain ⟨hinput, file, hlocate⟩ := hgraph.exists_file hnode
  unfold needsCompile
  cases houtput : node.output with
  | some output => exact exists_outputBefore (hask node hnode output houtput) hinput
  | none =>
      obtain ⟨time, htime⟩ := exists_modified_of_file hinput hlocate
      dsimp only
      rw [htime]
      exact exists_anyOutputBefore hask time _

/-- With a working directory and a build directory that can be asked for, all outputs can. -/
theorem Projected.outputsAskable (hgraph : ws.Projected config graph)
    (hhere : ∀ name ∈ ws.location, Askable name)
    (hbuild : ∀ buildDir, config.buildDir = some buildDir → Askable buildDir) :
    graph.OutputsAskable := by
  intro node hnode output houtput
  rw [hgraph.output node hnode] at houtput
  exact Config.askable_outputOf hhere hbuild (hgraph.exists_file hnode).1 houtput

/-! ## Refused outputs -/

theorem modified_of_refusal {refused : AccessError} (hrefused : refusal? input = some refused) :
    ws.modified input = .error refused := by
  unfold modified
  rw [hrefused]

theorem eq_refusal_of_modified {refused : AccessError}
    (hmodified : ws.modified input = .error refused)
    (hfault : ∀ what path, refused ≠ .fault what path) : refusal? input = some refused := by
  unfold modified at hmodified
  split at hmodified
  next error hrefused => exact (Except.error.inj hmodified) ▸ hrefused
  next =>
    split at hmodified
    next => cases hmodified
    next => cases hmodified
    next => exact absurd (Except.error.inj hmodified).symm (hfault _ _)

theorem needsCompile_of_refusal {output : Text} {refused : AccessError}
    (houtput : node.output = some output) (hrefused : refusal? output = some refused) :
    ws.needsCompile (some graph) node = .error (.access refused) := by
  unfold needsCompile outputBefore
  rw [houtput]
  dsimp only
  rw [modified_of_refusal hrefused]
  cases refused with
  | fault what path => exact absurd hrefused refusal?_ne_fault
  | embeddedNul => rfl
  | unencodable error => rfl

theorem refusesOutput_of_anyOutputBefore {time : Timestamp} {paths : List Text}
    {failure : Failure} (hfailure : ws.anyOutputBefore graph time paths = .error failure) :
    graph.RefusesOutput failure := by
  induction paths with
  | nil => cases hfailure
  | cons path rest ih =>
      unfold anyOutputBefore at hfailure
      split at hfailure
      next => exact ih hfailure
      next output houtput =>
        split at hfailure
        next => exact ih hfailure
        next refused hfault hmodified =>
          obtain ⟨node, hfound, houtput⟩ := Option.bind_eq_some_iff.1 houtput
          exact ⟨node, (Graph.get?_eq_some_iff.1 hfound).1, output, refused, houtput,
            eq_refusal_of_modified hmodified hfault, (Except.error.inj hfailure).symm⟩
        next =>
          split at hfailure
          next => cases hfailure
          next => exact ih hfailure

/-- In the graph of a project, nothing but a refused output leaves a node undecided. -/
theorem Projected.refusesOutput_of_needsCompile (hgraph : ws.Projected config graph)
    (hnode : node ∈ graph.nodes) {failure : Failure}
    (hfailure : ws.needsCompile (some graph) node = .error failure) :
    graph.RefusesOutput failure := by
  obtain ⟨hinput, file, hlocate⟩ := hgraph.exists_file hnode
  obtain ⟨changed, hchanged⟩ := exists_modified_of_file hinput hlocate
  unfold needsCompile at hfailure
  cases houtput : node.output with
  | none =>
      rw [houtput] at hfailure
      dsimp only at hfailure
      rw [hchanged] at hfailure
      exact refusesOutput_of_anyOutputBefore hfailure
  | some output =>
      rw [houtput] at hfailure
      dsimp only at hfailure
      unfold outputBefore at hfailure
      split at hfailure
      next => cases hfailure
      next refused hfault hmodified =>
        exact ⟨node, hnode, output, refused, houtput, eq_refusal_of_modified hmodified hfault,
          (Except.error.inj hfailure).symm⟩
      next =>
        rw [hchanged] at hfailure
        cases hfailure

/-! ## Comparing times -/

end Workspace

def Entry.time : Entry → Timestamp
  | .file data => data.modified
  | .folder modified _ => modified

namespace Workspace

variable {ws : Workspace} {graph : Graph} {node : Node} {text output source path : Text}
  {time built changed : Timestamp} {paths : List Text} {stale : Bool}

theorem modified_eq_ok_iff :
    ws.modified text = .ok time ↔
      Askable text ∧ ∃ entry, ws.locate text = .ok entry ∧ entry.time = time := by
  rw [← refusal?_eq_none_iff]
  unfold modified
  split
  next hsome => simp [hsome]
  next hnone =>
    rw [and_iff_right hnone]
    split
    next hlocate => simp [hlocate, Entry.time]
    next hlocate => simp [hlocate, Entry.time]
    next hlocate => simp [hlocate]

theorem outputBefore_of_modified (hbuilt : ws.modified output = .ok built)
    (hchanged : ws.modified source = .ok changed) :
    ws.outputBefore output source = .ok (built.isBefore changed) := by
  unfold outputBefore
  rw [hbuilt, hchanged]

theorem askable_of_outputBefore (hstale : ws.outputBefore output source = .ok stale) :
    Askable output := by
  unfold outputBefore modified at hstale
  cases hnone : refusal? output with
  | none => exact refusal?_eq_none_iff.1 hnone
  | some error =>
      rw [hnone] at hstale
      cases error with
      | fault what path => exact absurd hnone refusal?_ne_fault
      | embeddedNul => cases hstale
      | unencodable error => cases hstale

/-- An output that is not stale is there, as is its source. -/
theorem exists_modified_of_outputBefore (hstale : ws.outputBefore output source = .ok false) :
    ∃ built changed, ws.modified output = .ok built ∧ ws.modified source = .ok changed ∧
      built.isBefore changed = false := by
  unfold outputBefore at hstale
  split at hstale
  next => cases hstale
  next => cases hstale
  next built hbuilt =>
    split at hstale
    next => cases hstale
    next => cases hstale
    next changed hchanged => exact ⟨built, changed, hbuilt, hchanged, Except.ok.inj hstale⟩

theorem exists_of_anyOutputBefore (hstale : ws.anyOutputBefore graph time paths = .ok true) :
    ∃ path ∈ paths, ∃ output, (graph.find? path).bind Node.output = some output ∧
      ∃ built, ws.modified output = .ok built ∧ built.isBefore time = true := by
  induction paths with
  | nil => cases hstale
  | cons path rest ih =>
      have hrest (hmore : ws.anyOutputBefore graph time rest = .ok true) :=
        (ih hmore).imp fun other => And.imp_left (List.mem_cons_of_mem path)
      unfold anyOutputBefore at hstale
      split at hstale
      next => exact hrest hstale
      next output houtput =>
        split at hstale
        next => exact hrest hstale
        next => cases hstale
        next built hbuilt =>
          split at hstale
          next hbefore => exact ⟨path, List.mem_cons_self, output, houtput, built, hbuilt, hbefore⟩
          next => exact hrest hstale

theorem eq_true_of_anyOutputBefore (hstale : ws.anyOutputBefore graph time paths = .ok stale)
    (hpath : path ∈ paths) (houtput : (graph.find? path).bind Node.output = some output)
    (hbuilt : ws.modified output = .ok built) (hbefore : built.isBefore time = true) :
    stale = true := by
  induction paths with
  | nil => exact (List.not_mem_nil hpath).elim
  | cons other rest ih =>
      unfold anyOutputBefore at hstale
      by_cases hother : path = other
      · subst hother
        rw [houtput] at hstale
        dsimp only at hstale
        rw [hbuilt] at hstale
        dsimp only at hstale
        rw [if_pos hbefore] at hstale
        exact (Except.ok.inj hstale).symm
      · have hrest := (List.mem_cons.1 hpath).resolve_left hother
        split at hstale
        next => exact ih hstale hrest
        next =>
          split at hstale
          next => exact ih hstale hrest
          next => cases hstale
          next =>
            split at hstale
            next => exact (Except.ok.inj hstale).symm
            next => exact ih hstale hrest

theorem needsCompile_of_output (houtput : node.output = some output) :
    ws.needsCompile (some graph) node = ws.outputBefore output node.input := by
  unfold needsCompile
  rw [houtput]

theorem needsCompile_of_declaration (houtput : node.output = none)
    (hchanged : ws.modified node.input = .ok changed) :
    ws.needsCompile (some graph) node =
      ws.anyOutputBefore graph changed node.dependents.toList := by
  unfold needsCompile
  rw [houtput, hchanged]

end Workspace

end Rebuild
