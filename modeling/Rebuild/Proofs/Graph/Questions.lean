import Rebuild.Proofs.Graph.Insertion

/-!
# Questions about files

An insertion asks the sources about a file before the file gets its node and never after.  This is
seen on a record of the questions, which changes nothing in the search: it accounts for all new
nodes, in their order, and a file that has been accepted does not come up again.
-/

namespace Rebuild

/-- A file that the sources have been asked about, and whether they have accepted it. -/
structure Question where
  path : Text
  accepted : Bool
  deriving DecidableEq

def Scanned.isAccepted {ε : Type} : Scanned ε → Bool
  | .refs _ => true
  | _ => false

/-- The same answers, with a record of the questions about files. -/
def Sources.recording {σ ε : Type} (sources : Sources σ ε) : Sources (σ × List Question) ε where
  requires path state :=
    let (answer, next) := sources.requires path state.1
    (answer, next, state.2 ++ [⟨path, answer.isAccepted⟩])
  resolve reference state :=
    let (answer, next) := sources.resolve reference state.1
    (answer, next, state.2)

namespace Insertion

variable {σ ε : Type} {sources : Sources σ ε} {here : Location} {scope : Option Text}

def unrecorded (run : Insertion (σ × List Question) ε) : Insertion σ ε :=
  ⟨run.graph, run.state.1, run.events, run.stop⟩

section Unrecorded

variable {run : Insertion (σ × List Question) ε}

@[simp] theorem graph_unrecorded : run.unrecorded.graph = run.graph :=
  rfl

@[simp] theorem state_unrecorded : run.unrecorded.state = run.state.1 :=
  rfl

@[simp] theorem stop_unrecorded : run.unrecorded.stop = run.stop :=
  rfl

end Unrecorded

theorem recording_requires {path : Text} {state : σ × List Question} {answer : Scanned ε}
    {next : σ} (hanswer : sources.requires path state.1 = (answer, next)) :
    sources.recording.requires path state =
      (answer, next, state.2 ++ [⟨path, answer.isAccepted⟩]) := by
  simp only [Sources.recording, hanswer]

theorem recording_resolve {reference : Text} {state : σ × List Question}
    {answer : Option Text} {next : σ}
    (hanswer : sources.resolve reference state.1 = (answer, next)) :
    sources.recording.resolve reference state = (answer, next, state.2) := by
  simp only [Sources.recording, hanswer]

theorem follow_recording {path reference : Text}
    {visit : Text → Insertion σ ε → Insertion σ ε}
    {visitRecording : Text → Insertion (σ × List Question) ε → Insertion (σ × List Question) ε}
    (hvisit : ∀ text run, (visitRecording text run).unrecorded = visit text run.unrecorded)
    (run : Insertion (σ × List Question) ε) :
    (follow sources.recording here scope path visitRecording run reference).unrecorded =
      follow sources here scope path visit run.unrecorded reference := by
  unfold follow
  rw [stop_unrecorded, state_unrecorded]
  by_cases hstop : run.stop.isSome = true
  · rw [if_pos hstop, if_pos hstop]
  · rw [if_neg hstop, if_neg hstop]
    cases hanswer : sources.resolve reference run.state.1 with
    | mk answer next =>
        rw [recording_resolve hanswer]
        cases answer with
        | none => rfl
        | some found =>
            dsimp only
            split
            next => exact hvisit _ _
            next => rfl

/-- Keeping a record changes nothing in a search. -/
theorem visit_recording (depth : Nat) (text : Text) (run : Insertion (σ × List Question) ε) :
    (visit sources.recording here scope depth text run).unrecorded =
      visit sources here scope depth text run.unrecorded := by
  induction depth generalizing text run with
  | zero => rfl
  | succ depth ih =>
      have hfold (references : List Text) (run : Insertion (σ × List Question) ε) :
          (references.foldl (follow sources.recording here scope (Path.canonical text)
              (visit sources.recording here scope depth)) run).unrecorded =
            references.foldl (follow sources here scope (Path.canonical text)
              (visit sources here scope depth)) run.unrecorded := by
        induction references generalizing run with
        | nil => rfl
        | cons reference rest ihRest =>
            rw [List.foldl_cons, List.foldl_cons, ihRest, follow_recording ih]
      unfold visit
      dsimp only
      rw [graph_unrecorded, state_unrecorded]
      by_cases habsolute : Path.isAbsolute text = true
      · rw [if_pos habsolute, if_pos habsolute]
        rfl
      · rw [if_neg habsolute, if_neg habsolute]
        by_cases hknown : run.graph.has (Path.canonical text) = true
        · rw [if_pos hknown, if_pos hknown]
        · rw [if_neg hknown, if_neg hknown]
          by_cases hextension : Path.extension (Path.canonical text) ≠ Path.sourceExtension
          · rw [if_pos hextension, if_pos hextension]
          · rw [if_neg hextension, if_neg hextension]
            cases hanswer : sources.requires (Path.canonical text) run.state.1 with
            | mk answer next =>
                rw [recording_requires hanswer]
                cases answer with
                | refs references => exact hfold references _
                | rejected reason => rfl
                | failed error => rfl

theorem finish_unrecorded (run : Insertion (σ × List Question) ε) :
    run.finish.unrecorded = run.unrecorded.finish := by
  unfold finish
  rw [stop_unrecorded, graph_unrecorded]
  by_cases hstop : run.stop.isSome = true
  · rw [if_pos hstop, if_pos hstop]
  · rw [if_neg hstop, if_neg hstop]
    dsimp only
    split <;> rfl

end Insertion

/-- An insertion that keeps a record of its questions is the insertion without the record. -/
theorem Graph.insert_recording {σ ε : Type} (graph : Graph) (sources : Sources σ ε)
    (here : Location) (scope : Option Text) (depth : Nat) (text : Text) (state : σ)
    (asked : List Question) :
    (graph.insert sources.recording here scope depth text (state, asked)).unrecorded =
      graph.insert sources here scope depth text state := by
  rw [Graph.insert, Insertion.finish_unrecorded, Insertion.visit_recording]
  rfl

/-- What the questions asked between two graphs come to. -/
structure Asked (before after : Graph) (questions : List Question) : Prop where
  inputs : after.inputs =
    before.inputs ++ (questions.filter Question.accepted).map Question.path
  unknown : ∀ question ∈ questions, question.path ∉ before.inputs
  once : questions.Pairwise fun first second =>
    first.accepted = true → second.path ≠ first.path

namespace Asked

variable {before middle after : Graph} {first second : List Question}

theorem nil (hinputs : after.inputs = before.inputs) : Asked before after [] where
  inputs := by simp [hinputs]
  unknown _ hquestion := (List.not_mem_nil hquestion).elim
  once := .nil

theorem single {path : Text} {accepted : Bool} (hpath : path ∉ before.inputs)
    (hinputs : after.inputs = before.inputs ++ if accepted then [path] else []) :
    Asked before after [⟨path, accepted⟩] where
  inputs := by cases accepted <;> simpa using hinputs
  unknown question hquestion := by rwa [List.mem_singleton.1 hquestion]
  once := List.pairwise_singleton _ _

theorem trans (hfirst : Asked before middle first) (hsecond : Asked middle after second) :
    Asked before after (first ++ second) := by
  refine ⟨?_, ?_, List.pairwise_append.2 ⟨hfirst.once, hsecond.once, ?_⟩⟩
  · rw [hsecond.inputs, hfirst.inputs, List.append_assoc, List.filter_append, List.map_append]
  · intro question hquestion hmem
    rcases List.mem_append.1 hquestion with hquestion | hquestion
    · exact hfirst.unknown question hquestion hmem
    · refine hsecond.unknown question hquestion ?_
      rw [hfirst.inputs]
      exact List.mem_append_left _ hmem
  · -- an accepted file has its node by the time of the later questions
    intro earlier hearlier later hlater haccepted heq
    refine hsecond.unknown later hlater ?_
    rw [heq, hfirst.inputs]
    exact List.mem_append_right _
      (List.mem_map_of_mem (List.mem_filter.2 ⟨hearlier, haccepted⟩))

end Asked

namespace Insertion

variable {σ ε : Type} {sources : Sources σ ε} {here : Location} {scope : Option Text}

/-- The record has grown by questions that account for the new nodes. -/
def AskedSince (before after : Insertion (σ × List Question) ε) : Prop :=
  ∃ questions, after.state.2 = before.state.2 ++ questions ∧
    Asked before.graph after.graph questions

namespace AskedSince

variable {before middle after : Insertion (σ × List Question) ε}

theorem of_state_eq (hstate : after.state.2 = before.state.2)
    (hinputs : after.graph.inputs = before.graph.inputs) : AskedSince before after :=
  ⟨[], by simp [hstate], .nil hinputs⟩

theorem trans (hfirst : AskedSince before middle) (hsecond : AskedSince middle after) :
    AskedSince before after := by
  obtain ⟨first, hfirstState, hfirst⟩ := hfirst
  obtain ⟨second, hsecondState, hsecond⟩ := hsecond
  refine ⟨first ++ second, ?_, hfirst.trans hsecond⟩
  rw [hsecondState, hfirstState, List.append_assoc]

end AskedSince

theorem state_recording_requires {path : Text} {state next : σ × List Question}
    {answer : Scanned ε} (hanswer : sources.recording.requires path state = (answer, next)) :
    next.2 = state.2 ++ [⟨path, answer.isAccepted⟩] := by
  cases hanswer
  rfl

theorem state_recording_resolve {reference : Text} {state next : σ × List Question}
    {answer : Option Text}
    (hanswer : sources.recording.resolve reference state = (answer, next)) :
    next.2 = state.2 := by
  cases hanswer
  rfl

theorem foldl_follow_askedSince {path : Text}
    {visit : Text → Insertion (σ × List Question) ε → Insertion (σ × List Question) ε}
    (hvisit : ∀ text run, AskedSince run (visit text run)) (references : List Text)
    (run : Insertion (σ × List Question) ε) :
    AskedSince run
      (references.foldl (follow sources.recording here scope path visit) run) := by
  induction references generalizing run with
  | nil => exact .of_state_eq rfl rfl
  | cons reference rest ih =>
      rw [List.foldl_cons]
      refine AskedSince.trans ?_ (ih _)
      have hstep := followStep_follow sources.recording here scope path visit run reference
      generalize follow sources.recording here scope path visit run reference = result at hstep
      cases hstep with
      | stopped => exact .of_state_eq rfl rfl
      | unresolved _ hanswer => exact .of_state_eq (state_recording_resolve hanswer) rfl
      | recorded _ hanswer =>
          exact .of_state_eq (state_recording_resolve hanswer) Graph.inputs_recordModule
      | entered _ hanswer =>
          refine AskedSince.trans ?_ (hvisit _ _)
          exact .of_state_eq (state_recording_resolve hanswer) Graph.inputs_recordModule

/-- A file that has its node is not asked about. -/
theorem visit_of_mem {depth : Nat} {text : Text} {run : Insertion σ ε}
    (hknown : Path.canonical text ∈ run.graph.inputs) :
    (visit sources here scope depth text run).graph = run.graph ∧
      (visit sources here scope depth text run).state = run.state := by
  cases depth with
  | zero => exact ⟨rfl, rfl⟩
  | succ depth =>
      unfold visit
      dsimp only
      rw [if_pos (Graph.has_eq_true_iff.2 hknown)]
      split <;> exact ⟨rfl, rfl⟩

theorem visit_askedSince (depth : Nat) (text : Text)
    (run : Insertion (σ × List Question) ε) :
    AskedSince run (visit sources.recording here scope depth text run) := by
  induction depth generalizing text run with
  | zero => exact .of_state_eq rfl rfl
  | succ depth ih =>
      by_cases hknown : Path.canonical text ∈ run.graph.inputs
      · have hsame :
            (visit sources.recording here scope (depth + 1) text run).graph = run.graph ∧
              (visit sources.recording here scope (depth + 1) text run).state = run.state :=
          visit_of_mem hknown
        exact .of_state_eq (by rw [hsame.2]) (by rw [hsame.1])
      · have hstep := visitStep_visit sources.recording here scope depth text run
        generalize visit sources.recording here scope (depth + 1) text run = result at hstep
        cases hstep with
        | absolute => exact .of_state_eq rfl rfl
        | known => exact .of_state_eq rfl rfl
        | otherExtension => exact .of_state_eq rfl rfl
        | failed hanswer =>
            refine ⟨_, state_recording_requires hanswer, .single hknown ?_⟩
            exact (List.append_nil _).symm
        | rejected hanswer =>
            refine ⟨_, state_recording_requires hanswer, .single hknown ?_⟩
            exact (List.append_nil _).symm
        | opened _ hnew _ hanswer =>
            refine AskedSince.trans ?_ (foldl_follow_askedSince ih _ _)
            refine ⟨_, state_recording_requires hanswer, .single hknown ?_⟩
            exact Graph.inputs_add hnew

theorem finish_askedSince (run : Insertion (σ × List Question) ε) :
    AskedSince run run.finish := by
  unfold finish
  split
  · exact .of_state_eq rfl rfl
  · dsimp only
    split <;> exact .of_state_eq rfl Graph.inputs_close

theorem insert_askedSince (graph : Graph) (sources : Sources σ ε) (here : Location)
    (scope : Option Text) (depth : Nat) (text : Text) (state : σ) (asked : List Question) :
    AskedSince (.start graph (state, asked))
      (graph.insert sources.recording here scope depth text (state, asked)) :=
  (visit_askedSince depth text _).trans (finish_askedSince _)

end Insertion

end Rebuild
