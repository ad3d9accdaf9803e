import Rebuild.Proofs.Graph.Contents

/-!
# Settings in which less is found

An insertion that returns has asked for every file that may be a node, and none of them has failed,
so with an empty answer in the place of each failure it would have run in the same way.  Hence, when
all answers of another setting about such files are answers of this one, insertions in the other
setting meet no failure either, and the graph they lead to has no nodes and edges of its own.
-/

namespace Rebuild

/-! ## Failures that are not met -/

/-- An answer without references in the place of every failure. -/
def Scanned.unfailing {ε : Type} : Scanned ε → Scanned ε
  | .failed _ => .refs []
  | answer => answer

def Sources.unfailing {σ ε : Type} (sources : Sources σ ε) : Sources σ ε where
  requires path state :=
    ((sources.requires path state).1.unfailing, (sources.requires path state).2)
  resolve := sources.resolve

namespace Insertion

variable {σ ε : Type} {sources : Sources σ ε} {here : Location} {scope : Option Text}
  {path : Text} {visit other : Text → Insertion σ ε → Insertion σ ε}

theorem follow_unfailing {run : Insertion σ ε} {reference : Text}
    (hvisit : ∀ text (run : Insertion σ ε), (visit text run).stop = none →
      other text run = visit text run)
    (hstop : (follow sources here scope path visit run reference).stop = none) :
    follow sources.unfailing here scope path other run reference =
      follow sources here scope path visit run reference := by
  unfold follow at hstop ⊢
  dsimp only [Sources.unfailing]
  split at hstop
  next hstopped => rw [if_pos hstopped, if_pos hstopped]
  next hrunning =>
    rw [if_neg hrunning, if_neg hrunning]
    cases hanswer : sources.resolve reference run.state with
    | mk found state =>
        rw [hanswer] at hstop
        cases found with
        | none => rfl
        | some found =>
            dsimp only at hstop ⊢
            split at hstop
            next hinserted =>
              rw [if_pos hinserted, if_pos hinserted]
              exact hvisit _ _ hstop
            next hinserted => rw [if_neg hinserted, if_neg hinserted]

theorem foldl_follow_unfailing
    (hvisit : ∀ text (run : Insertion σ ε), (visit text run).stop = none →
      other text run = visit text run)
    (references : List Text) (run : Insertion σ ε)
    (hstop : (references.foldl (follow sources here scope path visit) run).stop = none) :
    references.foldl (follow sources.unfailing here scope path other) run =
      references.foldl (follow sources here scope path visit) run := by
  induction references generalizing run with
  | nil => rfl
  | cons reference rest ih =>
      rw [List.foldl_cons] at hstop
      rw [List.foldl_cons, List.foldl_cons,
        follow_unfailing hvisit (stop_of_stop_foldl_follow hstop)]
      exact ih _ hstop

/-- A search that does not stop is the same without failures. -/
theorem visit_unfailing (depth : Nat) (text : Text) (run : Insertion σ ε)
    (hstop : (Insertion.visit sources here scope depth text run).stop = none) :
    Insertion.visit sources.unfailing here scope depth text run =
      Insertion.visit sources here scope depth text run := by
  induction depth generalizing text run with
  | zero => cases hstop
  | succ depth ih =>
      unfold Insertion.visit at hstop ⊢
      dsimp only [Sources.unfailing] at hstop ⊢
      split at hstop
      next habsolute => rw [if_pos habsolute, if_pos habsolute]
      next hrelative =>
        rw [if_neg hrelative, if_neg hrelative]
        split at hstop
        next hknown => rw [if_pos hknown, if_pos hknown]
        next hnew =>
          rw [if_neg hnew, if_neg hnew]
          split at hstop
          next hother => rw [if_pos hother, if_pos hother]
          next hextension =>
            rw [if_neg hextension, if_neg hextension]
            cases hanswer : sources.requires (Path.canonical text) run.state with
            | mk answer state =>
                rw [hanswer] at hstop
                cases answer with
                | failed => cases hstop
                | rejected => rfl
                | refs references => exact foldl_follow_unfailing ih references _ hstop

end Insertion

namespace Setting

variable {σ ε : Type} {setting first second : Setting ε} {sources : Sources σ ε}
  {roots others : List Text} {graph full : Graph} {path found source root : Text}

def unfailing (setting : Setting ε) : Setting ε :=
  { setting with parse := fun path => (setting.parse path).unfailing }

theorem Answers.unfailing (hanswers : setting.Answers sources) :
    setting.unfailing.Answers sources.unfailing where
  requires := fun path state => congrArg Scanned.unfailing (hanswers.requires path state)
  resolve := hanswers.resolve

theorem Built.unfailing (hbuilt : setting.Built roots graph) :
    setting.unfailing.Built roots graph := by
  induction hbuilt with
  | empty => exact .empty
  | @insert σ roots paths graph sources _ hanswers depth text state hverdict ih =>
      have hvisit := Insertion.visit_unfailing depth text (.start graph state)
        (Graph.insert_eq_close hverdict).1
      have hsame : graph.insert sources.unfailing setting.here setting.scope depth text state =
          graph.insert sources setting.here setting.scope depth text state :=
        congrArg Insertion.finish hvisit
      rw [← hsame] at hverdict ⊢
      exact .insert ih hanswers.unfailing depth text state hverdict

/-- Once a file is in the graph, its text has been read without a failure. -/
theorem Built.parse_ne_failed (hbuilt : setting.Built roots graph)
    (hentered : setting.unfailing.Admissible path → path ∈ graph.inputs)
    (hsource : Path.IsSource path) (error : ε) : setting.parse path ≠ .failed error := by
  intro hfailed
  have hparse : setting.unfailing.parse path = .refs [] := by
    change (setting.parse path).unfailing = .refs []
    rw [hfailed]
    rfl
  have hadmissible := hbuilt.holds.admissible
    (hentered ⟨hsource.relative, hsource.extension, [], hparse⟩)
  obtain ⟨references, hrefs⟩ := hadmissible.accepted
  cases hfailed.symm.trans hrefs

theorem Built.parse_root_ne_failed (hbuilt : setting.Built roots graph) (hroot : root ∈ roots)
    (hsource : Path.IsSource (Path.canonical root)) (error : ε) :
    setting.parse (Path.canonical root) ≠ .failed error :=
  hbuilt.parse_ne_failed (hbuilt.unfailing.holds.entered root hroot) hsource error

theorem Built.parse_key_ne_failed (hbuilt : setting.Built roots graph)
    (hinput : source ∈ graph.inputs) (hfinds : setting.Finds source found)
    (hexpandable : setting.Expandable found) (hsource : Path.IsSource (setting.key found))
    (error : ε) : setting.parse (setting.key found) ≠ .failed error := by
  obtain ⟨references, hparse, hlookup⟩ := hfinds
  have hfinds : setting.unfailing.Finds source found :=
    ⟨references, congrArg Scanned.unfailing hparse, hlookup⟩
  exact hbuilt.parse_ne_failed
    (hbuilt.unfailing.holds.closed.modules source hinput found hfinds hexpandable) hsource error

/-! ## Searches among good files -/

/-- Files without failures among which every search stays. -/
structure Spares (setting : Setting ε) (files : Set Text) : Prop where
  answered : ∀ path ∈ files, ∀ error, setting.parse path ≠ .failed error
  modules : ∀ source ∈ files, ∀ found, setting.Finds source found → setting.Expandable found →
    Path.IsSource (setting.key found) → setting.key found ∈ files

theorem foldl_follow_stop_ne_failed {references : List Text}
    {visit : Text → Insertion σ ε → Insertion σ ε} (hanswers : setting.Answers sources)
    (hvisit : ∀ reference ∈ references, ∀ found, setting.lookup reference = some found →
      setting.Expandable found → ∀ run : Insertion σ ε,
        (∀ error, run.stop ≠ some (.failed error)) →
          ∀ error, (visit (setting.key found) run).stop ≠ some (.failed error))
    (run : Insertion σ ε) (hrun : ∀ error, run.stop ≠ some (.failed error)) :
    ∀ error, (references.foldl
      (Insertion.follow sources setting.here setting.scope path visit) run).stop ≠
        some (.failed error) := by
  induction references generalizing run with
  | nil => exact hrun
  | cons reference rest ih =>
      rw [List.foldl_cons]
      apply ih (fun other hother => hvisit other (List.mem_cons_of_mem reference hother))
      have hstep := Insertion.followStep_follow sources setting.here setting.scope path visit
        run reference
      generalize Insertion.follow sources setting.here setting.scope path visit run reference =
        result at hstep
      cases hstep with
      | stopped => exact hrun
      | unresolved => exact hrun
      | recorded => exact hrun
      | @entered found state _ hanswer hinserted =>
          rw [fst_target]
          apply hvisit reference List.mem_cons_self found _ ((snd_target found).1 hinserted)
          · exact hrun
          · rw [← hanswers.resolve reference run.state, hanswer]

theorem Spares.visit_stop_ne_failed {files : Set Text} (hspares : setting.Spares files)
    (hanswers : setting.Answers sources) (depth : Nat) (text : Text) (run : Insertion σ ε)
    (htext : Path.IsSource (Path.canonical text) → Path.canonical text ∈ files)
    (hrun : ∀ error, run.stop ≠ some (.failed error)) :
    ∀ error, (Insertion.visit sources setting.here setting.scope depth text run).stop ≠
      some (.failed error) := by
  induction depth generalizing text run with
  | zero => simp [Insertion.visit]
  | succ depth ih =>
      unfold Insertion.visit
      dsimp only
      split
      next => exact hrun
      next hrelative =>
        split
        next => exact hrun
        next =>
          split
          next => exact hrun
          next hextension =>
            have hfile : Path.canonical text ∈ files := by
              apply htext
              refine ⟨?_, not_not.1 hextension⟩
              rw [Path.isAbsolute_canonical]
              exact Bool.eq_false_of_not_eq_true hrelative
            have hanswer := hanswers.requires (Path.canonical text) run.state
            split
            next hfailed =>
              rw [hfailed] at hanswer
              exact (hspares.answered _ hfile _ hanswer.symm).elim
            next => exact hrun
            next references state hrefs =>
              rw [hrefs] at hanswer
              refine foldl_follow_stop_ne_failed hanswers ?_ _ hrun
              intro reference hreference found hfound hexpandable next
              refine ih (setting.key found) next fun hsource => ?_
              rw [canonical_key] at hsource ⊢
              exact hspares.modules _ hfile found
                ⟨references, hanswer.symm, reference, hreference, hfound⟩ hexpandable hsource

/-! ## Narrower settings -/

/-- What the second setting says about files that may become nodes, the first one says as well. -/
structure Narrows (first second : Setting ε) : Prop where
  here : second.here = first.here
  scope : second.scope = first.scope
  refs : ∀ path, Path.canonical path = path → Path.IsSource path → ∀ references,
    second.parse path = .refs references → first.parse path = .refs references
  failed : ∀ path, Path.canonical path = path → Path.IsSource path → ∀ error,
    second.parse path = .failed error → first.parse path = .failed error
  lookup : ∀ reference found, second.lookup reference = some found →
    Path.IsSource (second.key found) → first.lookup reference = some found

/-- The roots of the second list that may become nodes are in the first. -/
def NarrowsRoots (first second : List Text) : Prop :=
  ∀ root ∈ second, Path.IsSource (Path.canonical root) → root ∈ first

namespace Narrows

theorem key_eq (hnarrows : Narrows first second) : second.key = first.key := by
  funext found
  unfold key
  rw [hnarrows.here, hnarrows.scope]

theorem expandable_eq (hnarrows : Narrows first second) :
    second.Expandable = first.Expandable := by
  funext found
  unfold Expandable
  rw [hnarrows.here, hnarrows.scope]

theorem finds (hnarrows : Narrows first second) (hcanonical : Path.canonical source = source)
    (hsource : Path.IsSource source) (hfinds : second.Finds source found)
    (hkey : Path.IsSource (second.key found)) : first.Finds source found := by
  obtain ⟨references, hparse, reference, hreference, hfound⟩ := hfinds
  exact ⟨references, hnarrows.refs source hcanonical hsource references hparse, reference,
    hreference, hnarrows.lookup reference found hfound hkey⟩

theorem admissible (hnarrows : Narrows first second) (hcanonical : Path.canonical path = path)
    (hadmissible : second.Admissible path) : first.Admissible path where
  relative := hadmissible.relative
  extension := hadmissible.extension
  accepted := by
    obtain ⟨references, hparse⟩ := hadmissible.accepted
    exact ⟨references, hnarrows.refs path hcanonical
      ⟨hadmissible.relative, hadmissible.extension⟩ references hparse⟩

end Narrows

/-- The files that the first setting makes nodes of, if it reads them at all. -/
def goodFiles (setting : Setting ε) (graph : Graph) : Set Text :=
  {path | Path.canonical path = path ∧ Path.IsSource path ∧
    (∀ error, setting.parse path ≠ .failed error) ∧
      (setting.Admissible path → path ∈ graph.inputs)}

theorem Narrows.root_mem_goodFiles (hroots : NarrowsRoots roots others)
    (hbuilt : first.Built roots graph) (hroot : root ∈ others)
    (hsource : Path.IsSource (Path.canonical root)) :
    Path.canonical root ∈ first.goodFiles graph := by
  have hroot := hroots root hroot hsource
  exact ⟨Path.canonical_canonical root, hsource, hbuilt.parse_root_ne_failed hroot hsource,
    hbuilt.holds.closed.roots root hroot⟩

theorem Narrows.spares (hnarrows : Narrows first second) (hbuilt : first.Built roots graph) :
    second.Spares (first.goodFiles graph) where
  answered := by
    rintro path ⟨hcanonical, hsource, hgood, _⟩ error hfailed
    exact hgood error (hnarrows.failed path hcanonical hsource error hfailed)
  modules := by
    rintro source ⟨hcanonical, hsource, _, hentered⟩ found hfinds hexpandable hkey
    have hfinds := hnarrows.finds hcanonical hsource hfinds hkey
    obtain ⟨references, hparse, _⟩ := id hfinds
    have hinput := hentered ⟨hsource.relative, hsource.extension, references, hparse⟩
    rw [hnarrows.expandable_eq] at hexpandable
    rw [hnarrows.key_eq] at hkey ⊢
    exact ⟨canonical_key found, hkey,
      hbuilt.parse_key_ne_failed hinput hfinds hexpandable hkey,
      hbuilt.holds.closed.modules source hinput found hfinds hexpandable⟩

theorem Narrows.inputs_subset (hnarrows : Narrows first second)
    (hroots : NarrowsRoots roots others) (hbuilt : first.Built roots graph)
    (hfull : second.Built others full) : ∀ path ∈ full.inputs, path ∈ graph.inputs := by
  refine hfull.holds.needed {path | path ∈ graph.inputs} ⟨?_, ?_⟩
  · intro root hroot hadmissible
    exact hbuilt.holds.closed.roots root
      (hroots root hroot ⟨hadmissible.relative, hadmissible.extension⟩)
      (hnarrows.admissible (Path.canonical_canonical root) hadmissible)
  · intro source hsource found hfinds hexpandable hadmissible
    have hfinds := hnarrows.finds (hbuilt.canonical_input hsource) (hbuilt.isSource hsource) hfinds
      ⟨hadmissible.relative, hadmissible.extension⟩
    have hadmissible := hnarrows.admissible (canonical_key found) hadmissible
    rw [hnarrows.expandable_eq] at hexpandable
    rw [hnarrows.key_eq] at hadmissible ⊢
    exact hbuilt.holds.closed.modules source hsource found hfinds hexpandable hadmissible

theorem Narrows.edge (hnarrows : Narrows first second) (hroots : NarrowsRoots roots others)
    (hbuilt : first.Built roots graph) (hfull : second.Built others full) {target : Text}
    (hedge : full.Edge source target) : graph.Edge source target := by
  have hinputs := hnarrows.inputs_subset hroots hbuilt hfull
  obtain ⟨⟨node, hnode, rfl, htarget⟩, hmem⟩ := hedge
  have hinput := Graph.input_mem_inputs hnode
  obtain ⟨old, hold, hsame⟩ := Graph.mem_inputs.1 (hinputs _ hinput)
  have hdescribed := hfull.holds.described node hnode
  have hdescribedOld := hbuilt.holds.described old hold
  have hrequires : old.requires = node.requires := by
    have hparse := hnarrows.refs node.input (hfull.canonical_input hinput)
      (hfull.isSource hinput) node.requires hdescribed.requires
    rw [← hsame, hdescribedOld.requires] at hparse
    exact Scanned.refs.inj hparse
  rw [hdescribed.modules] at htarget
  obtain ⟨⟨reference, key⟩, hrecorded, rfl⟩ := List.mem_map.1 htarget
  obtain ⟨hreference, found, hfound, hkey⟩ := mem_recorded_iff.1 hrecorded
  dsimp only at hmem ⊢
  have hsource : Path.IsSource (second.key found) := hkey ▸ hfull.isSource hmem
  have hfound := hnarrows.lookup reference found hfound hsource
  rw [hnarrows.key_eq] at hkey
  refine ⟨⟨old, hold, hsame, ?_⟩, hinputs _ hmem⟩
  rw [hdescribedOld.modules, hrequires]
  exact List.mem_map.2 ⟨(reference, key),
    mem_recorded_iff.2 ⟨hreference, found, hfound, hkey⟩, rfl⟩

end Setting

end Rebuild
