import Rebuild.Proofs.Graph.Setting

/-!
# The files of a graph

With fixed answers the files of a graph are settled by the files that were inserted: they are the
least set that holds those and is closed under modules.  A file is a node before its modules are
followed, so a module that is met again while its own modules are still being followed is skipped;
nothing is lost by this, since whatever the module requires is on its way into the graph already.
The invariant of the search therefore speaks of all new nodes but the one whose references are being
followed, and of that one it says which references are done.
-/

namespace Rebuild

namespace Graph

theorem Extends.mem_nodes_of_input {before after : Graph} (hextends : before.Extends after)
    {node : Node} (hnode : node ∈ after.nodes) (hinput : node.input ∈ before.inputs) :
    node ∈ before.nodes := by
  obtain ⟨old, hold, heq⟩ := Graph.mem_inputs.1 hinput
  rwa [← eq_of_input_eq (hextends.mem_nodes hold) hnode heq]

end Graph

namespace Insertion

variable {σ ε : Type} {sources : Sources σ ε} {here : Location} {scope : Option Text}
  {path : Text} {visit : Text → Insertion σ ε → Insertion σ ε} {run : Insertion σ ε}

theorem foldl_follow_of_stopped (hstopped : run.stop ≠ none) (references : List Text) :
    references.foldl (follow sources here scope path visit) run = run := by
  induction references with
  | nil => rfl
  | cons reference rest ih =>
      have hfollow : follow sources here scope path visit run reference = run := by
        unfold follow
        rw [if_pos (Option.isSome_iff_ne_none.2 hstopped)]
      rw [List.foldl_cons, hfollow, ih]

/-- References that are followed to the end were followed by a search that had not stopped. -/
theorem stop_of_stop_foldl_follow {references : List Text}
    (hstop : (references.foldl (follow sources here scope path visit) run).stop = none) :
    run.stop = none := by
  by_contra hstopped
  rw [foldl_follow_of_stopped hstopped] at hstop
  exact hstopped hstop

end Insertion

namespace Setting

variable {σ ε : Type} {setting : Setting ε} {sources : Sources σ ε}

structure Describes (setting : Setting ε) (inputs : List Text) (node : Node) : Prop where
  admissible : setting.Admissible node.input
  requires : setting.parse node.input = .refs node.requires
  modules : node.modules = setting.recorded node.requires
  entered : ∀ reference ∈ node.requires, ∀ found, setting.lookup reference = some found →
    setting.Expandable found → setting.Admissible (setting.key found) →
      setting.key found ∈ inputs

theorem Describes.mono {inputs others : List Text} {node : Node}
    (hnode : setting.Describes inputs node) (hinputs : ∀ path ∈ inputs, path ∈ others) :
    setting.Describes others node where
  admissible := hnode.admissible
  requires := hnode.requires
  modules := hnode.modules
  entered := fun reference hreference found hfound hexpandable hadmissible =>
    hinputs _ (hnode.entered reference hreference found hfound hexpandable hadmissible)

structure Visited (setting : Setting ε) (before after : Graph) (path : Text) : Prop where
  entered : setting.Admissible path → path ∈ after.inputs
  described : ∀ node ∈ after.nodes, node.input ∉ before.inputs →
    setting.Describes after.inputs node
  needed : ∀ files, setting.KeepsModules files → (setting.Admissible path → path ∈ files) →
    ∀ other ∈ after.inputs, other ∉ before.inputs → other ∈ files

/-- The graph while the references of the file at `path` are followed and some of them are done. -/
structure Following (setting : Setting ε) (before : Graph) (path : Text)
    (references done : List Text) (graph : Graph) : Prop where
  opened : ∃ node ∈ graph.nodes, node.input = path ∧ node.requires = references ∧
    node.modules = setting.recorded done
  described : ∀ node ∈ graph.nodes, node.input ∉ before.inputs → node.input ≠ path →
    setting.Describes graph.inputs node
  entered : ∀ reference ∈ done, ∀ found, setting.lookup reference = some found →
    setting.Expandable found → setting.Admissible (setting.key found) →
      setting.key found ∈ graph.inputs
  needed : ∀ files, setting.KeepsModules files → path ∈ files →
    ∀ other ∈ graph.inputs, other ∉ before.inputs → other ∈ files

namespace Following

variable {before graph : Graph} {path reference found : Text} {references done : List Text}

theorem start (hnew : path ∉ before.inputs) :
    setting.Following before path references [] (before.add (.ofRequires path references)) := by
  have hnodes :
      (before.add (.ofRequires path references)).nodes =
        before.nodes ++ [.ofRequires path references] :=
    Graph.nodes_add hnew
  have hinputs :
      (before.add (.ofRequires path references)).inputs = before.inputs ++ [path] :=
    Graph.inputs_add hnew
  constructor
  · refine ⟨.ofRequires path references, ?_, rfl, rfl, rfl⟩
    rw [hnodes]
    exact List.mem_append_right _ List.mem_cons_self
  · intro node hnode hnot hne
    rw [hnodes, List.mem_append, List.mem_singleton] at hnode
    rcases hnode with hnode | rfl
    · exact (hnot (Graph.input_mem_inputs hnode)).elim
    · exact (hne rfl).elim
  · exact fun _ hreference => (List.not_mem_nil hreference).elim
  · intro files _ hpath other hother hnot
    rw [hinputs, List.mem_append, List.mem_singleton] at hother
    rwa [hother.resolve_left hnot]

theorem unresolved (hgraph : setting.Following before path references done graph)
    (hfound : setting.lookup reference = none) :
    setting.Following before path references (done ++ [reference]) graph where
  opened := by
    rw [recorded_append_of_none hfound]
    exact hgraph.opened
  described := hgraph.described
  entered := by
    intro other hother found hlookup
    rcases List.mem_append.1 hother with hother | hother
    · exact hgraph.entered other hother found hlookup
    · rw [List.mem_singleton.1 hother, hfound] at hlookup
      cases hlookup
  needed := hgraph.needed

theorem nodes_of_recordModule {target : Text} {node : Node}
    (hnode : node ∈ (graph.recordModule path reference target).nodes)
    (hne : node.input ≠ path) : node ∈ graph.nodes := by
  rw [Graph.nodes_recordModule] at hnode
  obtain ⟨old, hold, rfl⟩ := List.mem_map.1 hnode
  split at hne
  next heq => exact (hne heq).elim
  next hold' =>
    rw [if_neg hold']
    exact hold

/-- A module is recorded at the node that is open; where it would be a node itself, it has to be one
afterwards. -/
theorem record (hgraph : setting.Following before path references done graph)
    (hfound : setting.lookup reference = some found) {after : Graph}
    (hafter : (graph.recordModule path reference (setting.key found)).Extends after)
    (hentered : setting.Expandable found → setting.Admissible (setting.key found) →
      setting.key found ∈ after.inputs)
    (hdescribed : ∀ node ∈ after.nodes, node.input ∉ graph.inputs →
      setting.Describes after.inputs node)
    (hneeded : ∀ files, setting.KeepsModules files → path ∈ files →
      ∀ other ∈ after.inputs, other ∉ graph.inputs → other ∈ files) :
    setting.Following before path references (done ++ [reference]) after := by
  have hinputs : ∀ other ∈ graph.inputs, other ∈ after.inputs := by
    intro other hother
    apply hafter.mem_inputs
    rwa [Graph.inputs_recordModule]
  constructor
  · obtain ⟨node, hnode, hinput, hrequires, hmodules⟩ := hgraph.opened
    refine ⟨node.withModule reference (setting.key found), ?_, hinput, hrequires, ?_⟩
    · apply hafter.mem_nodes
      rw [Graph.nodes_recordModule]
      exact List.mem_map.2 ⟨node, hnode, by rw [if_pos hinput]⟩
    · rw [recorded_append_of_some hfound, ← hmodules]
      rfl
  · -- the open node is left out, and recording has changed no other
    intro node hnode hnot hne
    by_cases hold : node.input ∈ graph.inputs
    · have hrecorded := hafter.mem_nodes_of_input hnode (by rwa [Graph.inputs_recordModule])
      exact (hgraph.described node (nodes_of_recordModule hrecorded hne) hnot hne).mono hinputs
    · exact hdescribed node hnode hold
  · intro other hother found' hlookup hexpandable hadmissible
    rcases List.mem_append.1 hother with hother | hother
    · exact hinputs _ (hgraph.entered other hother found' hlookup hexpandable hadmissible)
    · rw [List.mem_singleton.1 hother, hfound] at hlookup
      cases hlookup
      exact hentered hexpandable hadmissible
  · intro files hkeeps hpath other hother hnot
    by_cases hold : other ∈ graph.inputs
    · exact hgraph.needed files hkeeps hpath other hold hnot
    · exact hneeded files hkeeps hpath other hother hold

end Following

section Search

variable {before : Graph} {path : Text} {references : List Text}

theorem following_foldl {visit : Text → Insertion σ ε → Insertion σ ε}
    (hanswers : setting.Answers sources) (hparse : setting.parse path = .refs references)
    (hextends : ∀ text (run : Insertion σ ε), run.graph.Extends (visit text run).graph)
    (hvisit : ∀ text (run : Insertion σ ε), (visit text run).stop = none →
      setting.Visited run.graph (visit text run).graph (Path.canonical text))
    (done rest : List Text) (hreferences : references = done ++ rest)
    (run : Insertion σ ε) (hrun : setting.Following before path references done run.graph)
    (hstop : (rest.foldl
      (Insertion.follow sources setting.here setting.scope path visit) run).stop = none) :
    setting.Following before path references references
      (rest.foldl (Insertion.follow sources setting.here setting.scope path visit) run).graph := by
  -- one reference after the other moves from `rest` to `done`; together they stay all of them
  induction rest generalizing done run with
  | nil =>
      rw [List.append_nil] at hreferences
      subst hreferences
      exact hrun
  | cons reference rest ih =>
      rw [List.foldl_cons] at hstop ⊢
      have hnext := Insertion.stop_of_stop_foldl_follow hstop
      have hmem : reference ∈ references := by simp [hreferences]
      apply ih (done ++ [reference]) (by simp [hreferences]) _ _ hstop
      have hstep := Insertion.followStep_follow sources setting.here setting.scope path visit
        run reference
      generalize Insertion.follow sources setting.here setting.scope path visit run reference =
        result at hstep hnext
      cases hstep with
      | stopped hstopped => exact (hstopped hnext).elim
      | unresolved _ hanswer =>
          apply hrun.unresolved
          rw [← hanswers.resolve reference run.state, hanswer]
      | @recorded found state _ hanswer hinserted =>
          have hfound : setting.lookup reference = some found := by
            rw [← hanswers.resolve reference run.state, hanswer]
          have hout : ¬setting.Expandable found := by
            rw [← snd_target, hinserted]
            exact Bool.false_ne_true
          rw [fst_target]
          apply hrun.record hfound (Graph.Extends.refl _)
          · exact fun hexpandable => (hout hexpandable).elim
          · intro node hnode hnot
            have hinput := Graph.input_mem_inputs hnode
            rw [Graph.inputs_recordModule] at hinput
            exact (hnot hinput).elim
          · intro files _ _ other hother hnot
            rw [Graph.inputs_recordModule] at hother
            exact (hnot hother).elim
      | @entered found state _ hanswer hinserted =>
          have hfound : setting.lookup reference = some found := by
            rw [← hanswers.resolve reference run.state, hanswer]
          have hvisited := hvisit _ _ hnext
          rw [fst_target] at hvisited ⊢
          rw [canonical_key] at hvisited
          apply hrun.record hfound (hextends _ _)
          · exact fun _ => hvisited.entered
          · intro node hnode hnot
            exact hvisited.described node hnode (by rwa [Graph.inputs_recordModule])
          · intro files hkeeps hpath other hother hnot
            refine hvisited.needed files hkeeps ?_ other hother
              (by rwa [Graph.inputs_recordModule])
            exact hkeeps path hpath found ⟨references, hparse, reference, hmem, hfound⟩
              (snd_target found |>.1 hinserted)

theorem Following.visited {graph : Graph}
    (hgraph : setting.Following before path references references graph)
    (hparse : setting.parse path = .refs references) (hadmissible : setting.Admissible path) :
    setting.Visited before graph path where
  entered := fun _ => by
    obtain ⟨node, hnode, rfl, _⟩ := hgraph.opened
    exact Graph.input_mem_inputs hnode
  described := by
    intro node hnode hnot
    by_cases hinput : node.input = path
    · obtain ⟨opened, hopened, hopenedInput, hrequires, hmodules⟩ := hgraph.opened
      have hsame : opened = node :=
        Graph.eq_of_input_eq hopened hnode (hopenedInput.trans hinput.symm)
      subst hsame
      subst hrequires
      subst hinput
      exact ⟨hadmissible, hparse, hmodules, hgraph.entered⟩
    · exact hgraph.described node hnode hnot hinput
  needed := fun files hkeeps hpath => hgraph.needed files hkeeps (hpath hadmissible)

/-- A visit that adds nothing is over when its file cannot be a node or is one already. -/
theorem Visited.same {graph : Graph} (hentered : setting.Admissible path → path ∈ graph.inputs) :
    setting.Visited graph graph path where
  entered := hentered
  described := fun _ hnode hnot => (hnot (Graph.input_mem_inputs hnode)).elim
  needed := fun _ _ _ _ hother hnot => (hnot hother).elim

theorem visited_visit (hanswers : setting.Answers sources) (depth : Nat) (text : Text)
    (run : Insertion σ ε)
    (hstop :
      (Insertion.visit sources setting.here setting.scope depth text run).stop = none) :
    setting.Visited run.graph
      (Insertion.visit sources setting.here setting.scope depth text run).graph
      (Path.canonical text) := by
  induction depth generalizing text run with
  | zero => cases hstop
  | succ depth ih =>
      have hstep := Insertion.visitStep_visit sources setting.here setting.scope depth text run
      generalize Insertion.visit sources setting.here setting.scope (depth + 1) text run =
        result at hstep hstop
      cases hstep with
      | absolute habsolute =>
          apply Visited.same
          intro hadmissible
          have hrelative := hadmissible.relative
          rw [Path.isAbsolute_canonical, habsolute] at hrelative
          cases hrelative
      | known hknown => exact Visited.same fun _ => hknown
      | otherExtension hextension =>
          exact Visited.same fun hadmissible => (hextension hadmissible.extension).elim
      | failed => cases hstop
      | rejected hanswer =>
          apply Visited.same
          intro hadmissible
          obtain ⟨references, hparse⟩ := hadmissible.accepted
          rw [← hanswers.requires _ run.state, hanswer] at hparse
          cases hparse
      | @opened references state hrelative hnew hextension hanswer =>
          have hparse : setting.parse (Path.canonical text) = .refs references := by
            rw [← hanswers.requires _ run.state, hanswer]
          have hadmissible : setting.Admissible (Path.canonical text) :=
            ⟨by rwa [Path.isAbsolute_canonical], hextension, references, hparse⟩
          have hfollowing := following_foldl hanswers hparse
            (Insertion.visit_extends sources setting.here setting.scope depth) ih [] references
            rfl _ (Following.start hnew) hstop
          exact hfollowing.visited hparse hadmissible

end Search

structure Holds (setting : Setting ε) (roots : List Text) (graph : Graph) : Prop where
  described : ∀ node ∈ graph.nodes, setting.Describes graph.inputs node
  entered : ∀ root ∈ roots, setting.Admissible (Path.canonical root) →
    Path.canonical root ∈ graph.inputs
  needed : ∀ files, setting.Closed roots files → ∀ path ∈ graph.inputs, path ∈ files

variable {roots : List Text} {graph : Graph}

theorem Holds.visit {text : Text} {after : Graph} (hgraph : setting.Holds roots graph)
    (hextends : graph.Extends after)
    (hvisited : setting.Visited graph after (Path.canonical text)) :
    setting.Holds (roots ++ [text]) after where
  described := by
    intro node hnode
    by_cases hold : node.input ∈ graph.inputs
    · exact (hgraph.described node (hextends.mem_nodes_of_input hnode hold)).mono
        fun _ => hextends.mem_inputs
    · exact hvisited.described node hnode hold
  entered := by
    intro root hroot hadmissible
    rcases List.mem_append.1 hroot with hroot | hroot
    · exact hextends.mem_inputs (hgraph.entered root hroot hadmissible)
    · rw [List.mem_singleton.1 hroot] at hadmissible ⊢
      exact hvisited.entered hadmissible
  needed := by
    intro files hclosed path hpath
    by_cases hold : path ∈ graph.inputs
    · refine hgraph.needed files ⟨fun root hroot => ?_, hclosed.modules⟩ path hold
      exact hclosed.roots root (List.mem_append_left _ hroot)
    · refine hvisited.needed files hclosed.modules ?_ path hpath hold
      exact hclosed.roots text (List.mem_append_right _ List.mem_cons_self)

theorem Holds.close (hgraph : setting.Holds roots graph) :
    setting.Holds roots graph.close := by
  constructor
  · intro node hnode
    rw [Graph.inputs_close]
    obtain ⟨old, hold, dependents, rfl⟩ := Graph.exists_of_mem_nodes_close hnode
    have hdescribed := hgraph.described old hold
    exact ⟨hdescribed.admissible, hdescribed.requires, hdescribed.modules, hdescribed.entered⟩
  · rw [Graph.inputs_close]
    exact hgraph.entered
  · rw [Graph.inputs_close]
    exact hgraph.needed

theorem Built.holds (hbuilt : setting.Built roots graph) : setting.Holds roots graph := by
  induction hbuilt with
  | empty =>
      constructor
      · exact fun _ hnode => (List.not_mem_nil hnode).elim
      · exact fun _ hroot => (List.not_mem_nil hroot).elim
      · exact fun _ _ _ hpath => (List.not_mem_nil hpath).elim
  | insert _ hanswers depth text state hverdict ih =>
      obtain ⟨hstop, hgraph⟩ := Graph.insert_eq_close hverdict
      rw [hgraph]
      exact (ih.visit (Insertion.visit_extends _ _ _ _ _ _)
        (visited_visit hanswers depth text _ hstop)).close

theorem Holds.closed (hgraph : setting.Holds roots graph) :
    setting.Closed roots {path | path ∈ graph.inputs} where
  roots := hgraph.entered
  modules := by
    rintro source hsource found ⟨references, hparse, reference, hreference, hfound⟩
      hexpandable hadmissible
    obtain ⟨node, hnode, rfl⟩ := Graph.mem_inputs.1 hsource
    have hdescribed := hgraph.described node hnode
    rw [hdescribed.requires] at hparse
    cases hparse
    exact hdescribed.entered reference hreference found hfound hexpandable hadmissible

theorem Holds.admissible {path : Text} (hgraph : setting.Holds roots graph)
    (hpath : path ∈ graph.inputs) : setting.Admissible path := by
  obtain ⟨node, hnode, rfl⟩ := Graph.mem_inputs.1 hpath
  exact (hgraph.described node hnode).admissible

theorem Holds.root_or_module {path : Text} (hgraph : setting.Holds roots graph)
    (hpath : path ∈ graph.inputs) :
    (∃ root ∈ roots, Path.canonical root = path) ∨
      ∃ source ∈ graph.inputs, ∃ found, setting.Finds source found ∧
        setting.Expandable found ∧ setting.key found = path := by
  have hclosed := hgraph.closed
  -- the nodes that are there for one of the two reasons are closed already
  refine (hgraph.needed
    {other | other ∈ graph.inputs ∧
      ((∃ root ∈ roots, Path.canonical root = other) ∨
        ∃ source ∈ graph.inputs, ∃ found, setting.Finds source found ∧
          setting.Expandable found ∧ setting.key found = other)} ?_ path hpath).2
  constructor
  · exact fun root hroot hadmissible =>
      ⟨hclosed.roots root hroot hadmissible, Or.inl ⟨root, hroot, rfl⟩⟩
  · exact fun source hsource found hfinds hexpandable hadmissible =>
      ⟨hclosed.modules source hsource.1 found hfinds hexpandable hadmissible,
        Or.inr ⟨source, hsource.1, found, hfinds, hexpandable, rfl⟩⟩

theorem Built.canonical_input (hbuilt : setting.Built roots graph) {path : Text}
    (hpath : path ∈ graph.inputs) : Path.canonical path = path := by
  rcases hbuilt.holds.root_or_module hpath with ⟨root, _, rfl⟩ | ⟨_, _, found, _, _, rfl⟩
  · exact Path.canonical_canonical root
  · exact canonical_key found

theorem Built.isSource (hbuilt : setting.Built roots graph) {path : Text}
    (hpath : path ∈ graph.inputs) : Path.IsSource path :=
  ⟨(hbuilt.holds.admissible hpath).relative, (hbuilt.holds.admissible hpath).extension⟩

/-- The files of a graph are the least set that holds the roots and is closed under inserted
modules.  Each node has what its file requires, with a path for every reference that is found; a
path that cannot be a node is recorded all the same, and a module out of scope is a node only for
another reason. -/
theorem Built.contents_exact (hbuilt : setting.Built roots graph) :
    IsLeast {files : Set Text | setting.Closed roots files} {path | path ∈ graph.inputs} ∧
      ∀ node ∈ graph.nodes,
        graph.get? node.input = some node ∧
        setting.parse node.input = .refs node.requires ∧
        (node.modules.map Prod.fst).Nodup ∧
        (∀ reference path, (reference, path) ∈ node.modules ↔
          reference ∈ node.requires ∧
            ∃ found, setting.lookup reference = some found ∧ path = setting.key found) ∧
        ∀ reference ∈ node.requires, ∀ found, setting.lookup reference = some found →
          (reference, setting.key found) ∈ node.modules ∧
          (¬setting.Admissible (setting.key found) → setting.key found ∉ graph.inputs) ∧
          (¬setting.Expandable found →
            setting.key found = Path.canonical found ∧
              (setting.key found ∈ graph.inputs →
                (∃ root ∈ roots, Path.canonical root = setting.key found) ∨
                  ∃ source ∈ graph.inputs, ∃ other, setting.Finds source other ∧
                    setting.Expandable other ∧ setting.key other = setting.key found)) := by
  have hgraph := hbuilt.holds
  refine ⟨⟨hgraph.closed, hgraph.needed⟩, fun node hnode => ?_⟩
  have hdescribed := hgraph.described node hnode
  have hmodules : ∀ reference path, (reference, path) ∈ node.modules ↔
      reference ∈ node.requires ∧
        ∃ found, setting.lookup reference = some found ∧ path = setting.key found := by
    intro reference path
    rw [hdescribed.modules]
    exact mem_recorded_iff
  refine ⟨Graph.get?_input hnode, hdescribed.requires, ?_, hmodules, ?_⟩
  · rw [hdescribed.modules]
    exact nodup_keys_recorded node.requires
  · intro reference hreference found hfound
    refine ⟨(hmodules _ _).2 ⟨hreference, found, hfound, rfl⟩, ?_, ?_⟩
    · exact fun hnot hmem => hnot (hgraph.admissible hmem)
    · exact fun hout => ⟨key_of_not_expandable hout, hgraph.root_or_module⟩

/-! ## A module out of scope that is inserted for itself -/

/-- `src/a.tl` requires a module outside `src`. -/
def outwardTable : SourceTable :=
  ⟨[("src/a.tl", some ["lib.b"]), ("lib/b.tl", some [])], [("lib.b", "lib/b.tl")]⟩

def outward : Setting Empty :=
  outwardTable.setting [] (some "src")

def outwardFirst : Graph where
  nodes := [⟨"src/a.tl", none, ["lib.b"], [("lib.b", "lib/b.tl")], ∅, .unset⟩]
  distinct := by decide

def outwardBoth : Graph :=
  (outwardFirst.insert outwardTable.sources [] (some "src") 1 "lib/b.tl" []).graph

theorem built_outwardFirst : outward.Built ["src/a.tl"] outwardFirst := by
  have hstop :
      (Insertion.visit outwardTable.sources [] (some "src") 1 "src/a.tl"
        (.start .empty [])).stop.isNone = true := by
    decide +kernel
  have hnodes :
      (Graph.empty.insert outwardTable.sources [] (some "src") 1 "src/a.tl" []).graph.nodes =
        outwardFirst.nodes := by
    decide +kernel
  rw [← Graph.ext_nodes hnodes]
  exact .insert .empty (outwardTable.answers [] (some "src")) 1 "src/a.tl" []
    (Graph.verdict_insert (Option.isNone_iff_eq_none.1 hstop))

theorem stop_visit_outwardBoth :
    (Insertion.visit outwardTable.sources [] (some "src") 1 "lib/b.tl"
      (.start outwardFirst [])).stop = none := by
  rw [← Option.isNone_iff_eq_none]
  decide +kernel

theorem built_outwardBoth : outward.Built ["src/a.tl", "lib/b.tl"] outwardBoth :=
  .insert built_outwardFirst (outwardTable.answers [] (some "src")) 1 "lib/b.tl" []
    (Graph.verdict_insert stop_visit_outwardBoth)

theorem inputs_outwardBoth : outwardBoth.inputs = (["src/a.tl", "lib/b.tl"] : List Text) := by
  have hvisit :
      (Insertion.visit outwardTable.sources [] (some "src") 1 "lib/b.tl"
        (.start outwardFirst [])).graph.inputs = (["src/a.tl", "lib/b.tl"] : List Text) := by
    decide +kernel
  rw [outwardBoth, (Graph.insert_eq_close (Graph.verdict_insert stop_visit_outwardBoth)).2,
    Graph.inputs_close]
  exact hvisit

theorem contents_exact_outwardBoth :
    outward.Built ["src/a.tl", "lib/b.tl"] outwardBoth ∧
      IsLeast {files : Set Text | outward.Closed ["src/a.tl", "lib/b.tl"] files}
        {path | path ∈ outwardBoth.inputs} :=
  ⟨built_outwardBoth, built_outwardBoth.contents_exact.1⟩

/-- Being out of scope does not keep a module from being a node. -/
theorem mem_inputs_of_out_of_scope :
    outward.Built ["src/a.tl", "lib/b.tl"] outwardBoth ∧
      ("src/a.tl" : Text) ∈ outwardBoth.inputs ∧ outward.Finds "src/a.tl" "lib/b.tl" ∧
      ¬outward.Expandable "lib/b.tl" ∧ outward.key ("lib/b.tl" : Text) ∈ outwardBoth.inputs := by
  have hout : ¬outward.Expandable "lib/b.tl" := by
    change ¬Location.isInside [] "lib/b.tl" "src" = true
    decide +kernel
  have hkey : outward.key "lib/b.tl" = "lib/b.tl" := by
    rw [key_of_not_expandable hout]
    decide +kernel
  have hlookup : outward.lookup "lib.b" = some ("lib/b.tl" : Text) := by decide +kernel
  have hparse : outward.parse "src/a.tl" = .refs ["lib.b"] := by rfl
  refine ⟨built_outwardBoth, ?_, ⟨["lib.b"], hparse, "lib.b", ?_, hlookup⟩, hout, ?_⟩
  · simp [inputs_outwardBoth]
  · exact List.mem_cons_self
  · simp [inputs_outwardBoth, hkey]

end Setting

end Rebuild
