import Rebuild.Proofs.Graph.Marking
import Rebuild.Proofs.Graph.Questions

/-!
# What requests leave as it is

A graph is built, marked and looked at by requests in any order.  Each of them changes one thing at
most: an insertion adds dependents and puts new nodes behind the old ones, a request to mark raises
marks, and the others answer from the graph as it stands.  Hence every node stays at its place, and
what is recorded in it is never taken back.
-/

namespace Rebuild

/-! ## What a change of the graph carries over -/

def Mark.rank : Mark → Nat
  | .unset => 0
  | .typecheck => 1
  | .compile => 2

namespace Node

/-- A node with further dependents, and otherwise the same. -/
def Gains (old now : Node) : Prop :=
  now = { old with dependents := now.dependents } ∧
    ∀ dependent ∈ old.dependents, dependent ∈ now.dependents

/-- A node with a mark that is not lower, and otherwise the same. -/
def Rises (old now : Node) : Prop :=
  now = { old with mark := now.mark } ∧ old.mark.rank ≤ now.mark.rank

/-- A node that has gained dependents and risen. -/
structure GrownTo (old now : Node) : Prop where
  input : now.input = old.input
  output : now.output = old.output
  requires : now.requires = old.requires
  modules : now.modules = old.modules
  dependents : ∀ dependent ∈ old.dependents, dependent ∈ now.dependents
  mark : old.mark.rank ≤ now.mark.rank

variable {old middle now : Node}

theorem GrownTo.refl (node : Node) : node.GrownTo node :=
  ⟨rfl, rfl, rfl, rfl, fun _ hmem => hmem, Nat.le_refl _⟩

theorem GrownTo.trans (hfirst : old.GrownTo middle) (hsecond : middle.GrownTo now) :
    old.GrownTo now where
  input := hsecond.input.trans hfirst.input
  output := hsecond.output.trans hfirst.output
  requires := hsecond.requires.trans hfirst.requires
  modules := hsecond.modules.trans hfirst.modules
  dependents dependent hmem := hsecond.dependents dependent (hfirst.dependents dependent hmem)
  mark := Nat.le_trans hfirst.mark hsecond.mark

theorem Gains.mark_eq (hgains : old.Gains now) : now.mark = old.mark := by
  rw [hgains.1]

theorem Gains.grownTo (hgains : old.Gains now) : old.GrownTo now := by
  obtain ⟨hsame, hdependents⟩ := hgains
  rw [hsame]
  exact ⟨rfl, rfl, rfl, rfl, hdependents, Nat.le_refl _⟩

theorem Rises.grownTo (hrises : old.Rises now) : old.GrownTo now := by
  obtain ⟨hsame, hmark⟩ := hrises
  rw [hsame]
  exact ⟨rfl, rfl, rfl, rfl, fun _ hmem => hmem, hmark⟩

end Node

namespace Graph

variable {graph before middle after : Graph} {path : Text}

/-- Every node has its successor at the same place. -/
def Carries (before : Graph) (relation : Node → Node → Prop) (after : Graph) : Prop :=
  ∀ (place : Nat) (node : Node), before.nodes[place]? = some node →
    ∃ now, after.nodes[place]? = some now ∧ relation node now

namespace Carries

variable {first second both : Node → Node → Prop}

theorem of_eq (hrelation : ∀ node, first node node) (heq : after = before) :
    before.Carries first after := by
  subst heq
  exact fun place node hnode => ⟨node, hnode, hrelation node⟩

theorem imp (hcarries : before.Carries first after)
    (himp : ∀ old now, first old now → second old now) : before.Carries second after := by
  intro place node hnode
  obtain ⟨now, hnow, hrelation⟩ := hcarries place node hnode
  exact ⟨now, hnow, himp node now hrelation⟩

theorem comp (hfirst : before.Carries first middle) (hsecond : middle.Carries second after)
    (hboth : ∀ old between now, first old between → second between now → both old now) :
    before.Carries both after := by
  intro place node hnode
  obtain ⟨between, hbetween, hbefore⟩ := hfirst place node hnode
  obtain ⟨now, hnow, hafter⟩ := hsecond place between hbetween
  exact ⟨now, hnow, hboth node between now hbefore hafter⟩

end Carries

/-! ### Insertions -/

theorem Extends.carries (hextends : before.Extends after) : before.Carries Eq after := by
  obtain ⟨added, hnodes, _⟩ := hextends
  intro place node hnode
  refine ⟨node, ?_, rfl⟩
  have hplace : place < before.nodes.length := (List.getElem?_eq_some_iff.1 hnode).1
  rw [hnodes, List.getElem?_append_left hplace, hnode]

theorem carries_close (graph : Graph) : graph.Carries Node.Gains graph.close := by
  intro place node hnode
  refine ⟨{ node with dependents := graph.close.dependentsAt node.input }, ?_, rfl, ?_⟩
  · rw [nodes_eq_of_frame_eq frame_close, List.getElem?_map, hnode]
    rfl
  · intro dependent hdependent
    rw [← dependentsAt_input (List.mem_of_getElem? hnode)] at hdependent
    exact mem_dependentsAt_close.2 (Or.inl hdependent)

theorem carries_insert {σ ε : Type} {sources : Sources σ ε} {here : Location}
    {scope : Option Text} {depth : Nat} {text : Text} {state : σ} {paths : List Text}
    (hverdict : (graph.insert sources here scope depth text state).verdict = .ok paths) :
    graph.Carries Node.Gains (graph.insert sources here scope depth text state).graph := by
  rw [(insert_eq_close hverdict).2]
  have hvisit := Insertion.visit_extends sources here scope depth text (.start graph state)
  refine hvisit.carries.comp (carries_close _) ?_
  rintro old _ now rfl hgains
  exact hgains

/-! ### Marking -/

/-- The nodes are the same but for marks, and no mark is lowered. -/
structure Marks (before after : Graph) : Prop where
  unmarked : after.unmarked = before.unmarked
  rank_le : ∀ path old now, before.markAt path = some old → after.markAt path = some now →
    old.rank ≤ now.rank

namespace Marks

theorem refl (graph : Graph) : Marks graph graph where
  unmarked := rfl
  rank_le _ old now hold hnow := by
    rw [Option.some.inj (hold.symm.trans hnow)]

theorem exists_markAt (hmarks : Marks before after) {old : Mark}
    (hold : before.markAt path = some old) :
    ∃ now, after.markAt path = some now ∧ old.rank ≤ now.rank := by
  have hpath : path ∈ after.inputs := by
    rw [inputs_eq_of_unmarked_eq hmarks.unmarked]
    by_contra hpath
    rw [markAt, get?_eq_none_iff.2 hpath] at hold
    cases hold
  obtain ⟨node, hnode, rfl⟩ := mem_inputs.1 hpath
  exact ⟨node.mark, markAt_input hnode, hmarks.rank_le _ _ _ hold (markAt_input hnode)⟩

theorem trans (hfirst : Marks before middle) (hsecond : Marks middle after) :
    Marks before after where
  unmarked := hsecond.unmarked.trans hfirst.unmarked
  rank_le path old now hold hnow := by
    obtain ⟨between, hbetween, hle⟩ := hfirst.exists_markAt hold
    exact hle.trans (hsecond.rank_le path between now hbetween hnow)

theorem carries (hmarks : Marks before after) : before.Carries Node.Rises after := by
  intro place node hnode
  have hsame : (after.nodes[place]?).map (fun now => { now with mark := Mark.unset }) =
      some { node with mark := .unset } := by
    rw [← List.getElem?_map]
    change after.unmarked[place]? = _
    rw [hmarks.unmarked, Graph.unmarked, List.getElem?_map, hnode]
    rfl
  obtain ⟨now, hnow, heq⟩ := Option.map_eq_some_iff.1 hsame
  have hinput : now.input = node.input := (Node.mk.inj heq).1
  have hmark : after.markAt node.input = some now.mark := by
    rw [← hinput]
    exact markAt_input (List.mem_of_getElem? hnow)
  refine ⟨now, hnow, ?_, ?_⟩
  · cases now
    cases node
    cases heq
    rfl
  · exact hmarks.rank_le _ _ _ (markAt_input (List.mem_of_getElem? hnode)) hmark

end Marks

theorem Spread.marks {starts : List Text} (hspread : Spread before after starts) :
    Marks before after where
  unmarked := hspread.unmarked
  rank_le path old now hold hnow := by
    rcases hspread.changed path with heq | ⟨_, _, _, hreach⟩
    · rw [heq, hold] at hnow
      cases hnow
      exact Nat.le_refl _
    · have hunset : before.markAt path = some .unset := hreach.isUnset
      rw [hunset] at hold
      cases hold
      exact Nat.zero_le _

theorem marks_setMark_compile : Marks graph (graph.setMark path .compile) where
  unmarked := unmarked_setMark
  rank_le other old now hold hnow := by
    rw [markAt_setMark] at hnow
    split at hnow
    · cases hnow
      cases old <;> decide
    · rw [hold] at hnow
      cases hnow
      exact Nat.le_refl _

theorem marks_markCompile (graph : Graph) (path : Text) :
    Marks graph (graph.markCompile path) := by
  rcases markCompile_cases graph path with ⟨hsame, _⟩ | ⟨_, hspread⟩
  · rw [hsame]
    exact .refl graph
  · exact marks_setMark_compile.trans hspread.marks

/-- A test may change its mind from one question to the next, which is what `τ` stands for. -/
theorem marks_markEach {τ : Type} (graph : Graph) (test : Text → StateM τ Bool) (state : τ) :
    Marks graph ((graph.markEach test).run state).1 := by
  unfold markEach
  generalize graph.ordered.map Node.input = paths
  induction paths generalizing graph state with
  | nil => exact .refl graph
  | cons path rest ih =>
      rw [List.foldlM_cons, StateT.run_bind]
      refine Marks.trans ?_ (ih _ _)
      simp only [StateT.run_bind]
      change Marks graph ((if ((test path).run state).1 = true then
        (pure (graph.markCompile path) : StateM τ Graph) else pure graph).run _).1
      split
      · exact marks_markCompile graph path
      · exact .refl graph

end Graph

/-! ## Requests -/

/-- A look at the graph. -/
inductive Query where
  | find (text : Text)
  | cycles
  | dependentCounts
  | nodes
  | marked (mark : Mark)

inductive Reply where
  | inserted (cycles : List Text)
  | marked
  | found (node : Option Node)
  | cycles (paths : List Text)
  | counts (counts : Graph.Counts)
  | nodes (nodes : List Node)
  deriving DecidableEq

def Graph.answer (graph : Graph) : Query → Reply
  | .find text => .found (graph.find? text)
  | .cycles => .cycles graph.cycles
  | .dependentCounts => .counts graph.dependentCounts
  | .nodes => .nodes graph.ordered
  | .marked mark => .nodes (graph.marked mark)

/-- A request to a graph.  Every insertion may have sources, a working directory and a scope of its
own, and what answers a question may change from one question to the next. -/
inductive Request : Type 1 where
  | insert {σ ε : Type} (sources : Sources σ ε) (here : Location) (scope : Option Text)
      (depth : Nat) (text : Text) (state : σ)
  | markCompile (path : Text)
  | markTypecheck (path : Text)
  | markEach {τ : Type} (test : Text → StateM τ Bool) (state : τ)
  | query (query : Query)

namespace Request

def isInsertion : Request → Bool
  | insert .. => true
  | _ => false

def isQuery : Request → Bool
  | query _ => true
  | _ => false

def isMarking (request : Request) : Bool :=
  !request.isInsertion && !request.isQuery

end Request

/-- A graph with the questions asked and the replies given so far. -/
structure Session where
  graph : Graph
  asked : List Question
  replies : List Reply

namespace Session

variable {before middle after : Session} {request : Request}

def start (graph : Graph) : Session :=
  ⟨graph, [], []⟩

def marking (session : Session) (graph : Graph) : Session :=
  { session with graph, replies := session.replies ++ [.marked] }

/-- Serves a request; there is no session after an insertion that does not return. -/
def serve (session : Session) : Request → Option Session
  | .insert sources here scope depth text state =>
    let run := session.graph.insert sources.recording here scope depth text (state, session.asked)
    match run.verdict with
    | .ok cycles => some ⟨run.graph, run.state.2, session.replies ++ [.inserted cycles]⟩
    | .error _ => none
  | .markCompile path => some (session.marking (session.graph.markCompile path))
  | .markTypecheck path => some (session.marking (session.graph.markTypecheck path))
  | .markEach test state => some (session.marking ((session.graph.markEach test).run state).1)
  | .query query =>
    some { session with replies := session.replies ++ [session.graph.answer query] }

/-- The record that a session keeps has no effect on an insertion. -/
theorem graph_serve_insert {σ ε : Type} (session : Session) (sources : Sources σ ε)
    (here : Location) (scope : Option Text) (depth : Nat) (text : Text) (state : σ) :
    (session.serve (.insert sources here scope depth text state)).map Session.graph =
      match (session.graph.insert sources here scope depth text state).verdict with
      | .ok _ => some (session.graph.insert sources here scope depth text state).graph
      | .error _ => none := by
  rw [← Graph.insert_recording session.graph sources here scope depth text state session.asked]
  dsimp only [serve]
  generalize session.graph.insert sources.recording here scope depth text
    (state, session.asked) = run
  change _ = match run.verdict with
    | .ok _ => some run.graph
    | .error _ => none
  cases run.verdict <;> rfl

def serveAll (session : Session) (requests : List Request) : Option Session :=
  requests.foldlM serve session

/-- What requests leave as it is. -/
structure Keeps (requests : List Request) (before after : Session) : Prop where
  grown : before.graph.Carries Node.GrownTo after.graph
  unmarked : (∀ request ∈ requests, request.isInsertion = false) →
    after.graph.unmarked = before.graph.unmarked
  marks : (∀ request ∈ requests, request.isMarking = false) →
    before.graph.Carries (fun old now => now.mark = old.mark) after.graph
  graph : (∀ request ∈ requests, request.isQuery = true) → after.graph = before.graph
  asked : ∃ questions, after.asked = before.asked ++ questions ∧
    Asked before.graph after.graph questions

namespace Keeps

theorem nil (session : Session) : Keeps [] session session where
  grown := .of_eq Node.GrownTo.refl rfl
  unmarked _ := rfl
  marks _ := .of_eq (fun _ => rfl) rfl
  graph _ := rfl
  asked := ⟨[], (List.append_nil _).symm, .nil rfl⟩

theorem trans {first second : List Request} (hfirst : Keeps first before middle)
    (hsecond : Keeps second middle after) : Keeps (first ++ second) before after where
  grown := hfirst.grown.comp hsecond.grown fun _ _ _ => Node.GrownTo.trans
  unmarked hnone := by
    have hall := List.forall_mem_append.1 hnone
    exact (hsecond.unmarked hall.2).trans (hfirst.unmarked hall.1)
  marks hnone := by
    have hall := List.forall_mem_append.1 hnone
    exact (hfirst.marks hall.1).comp (hsecond.marks hall.2) fun _ _ _ hfirst hsecond =>
      hsecond.trans hfirst
  graph honly := by
    have hall := List.forall_mem_append.1 honly
    exact (hsecond.graph hall.2).trans (hfirst.graph hall.1)
  asked := by
    obtain ⟨first, hfirstAsked, hfirst⟩ := hfirst.asked
    obtain ⟨second, hsecondAsked, hsecond⟩ := hsecond.asked
    refine ⟨first ++ second, ?_, hfirst.trans hsecond⟩
    rw [hsecondAsked, hfirstAsked, List.append_assoc]

theorem of_marks {graph : Graph} (hmarking : request.isMarking = true)
    (hmarks : Graph.Marks before.graph graph) : Keeps [request] before (before.marking graph) where
  grown := hmarks.carries.imp fun _ _ => Node.Rises.grownTo
  unmarked _ := hmarks.unmarked
  marks hnone := by simp [hmarking] at hnone
  graph honly := by
    simp only [Request.isMarking, Bool.and_eq_true, Bool.not_eq_true'] at hmarking
    simp [hmarking.2] at honly
  asked := ⟨[], (List.append_nil _).symm, .nil (Graph.inputs_eq_of_unmarked_eq hmarks.unmarked)⟩

end Keeps

theorem keeps_serve (hserve : before.serve request = some after) :
    Keeps [request] before after := by
  cases request with
  | insert sources here scope depth text state =>
      dsimp only [serve] at hserve
      split at hserve
      next cycles hverdict =>
        cases hserve
        have hcarries := Graph.carries_insert hverdict
        refine ⟨hcarries.imp fun _ _ => Node.Gains.grownTo, ?_,
          fun _ => hcarries.imp fun _ _ => Node.Gains.mark_eq, ?_, ?_⟩
        · intro hnone
          simp [Request.isInsertion] at hnone
        · intro honly
          simp [Request.isQuery] at honly
        · exact Insertion.insert_askedSince _ _ _ _ _ _ _ _
      next => cases hserve
  | markCompile path =>
      cases hserve
      exact .of_marks rfl (Graph.marks_markCompile before.graph path)
  | markTypecheck path =>
      cases hserve
      exact .of_marks rfl (Graph.markTypecheck_spread before.graph path).marks
  | markEach test state =>
      cases hserve
      exact .of_marks rfl (Graph.marks_markEach before.graph test state)
  | query query =>
      cases hserve
      exact { Keeps.nil before with
        unmarked := fun _ => rfl
        marks := fun _ => .of_eq (fun _ => rfl) rfl
        graph := fun _ => rfl }

/-- Requests of any kind in any order, over whatever answers the insertions get: every node stays at
its place with what is recorded in it, its dependents grow by insertions only and its mark rises by
marking only; and a file that has its node is not asked about again. -/
theorem keeps_records {requests : List Request}
    (hserved : before.serveAll requests = some after) : Keeps requests before after := by
  induction requests generalizing before with
  | nil =>
      cases hserved
      exact .nil _
  | cons request rest ih =>
      rw [serveAll, List.foldlM_cons, Option.bind_eq_bind, Option.bind_eq_some_iff] at hserved
      obtain ⟨middle, hfirst, hrest⟩ := hserved
      exact (keeps_serve hfirst).trans (ih hrest)

/-! ### A file repaired between two looks at the graph -/

def repairRequests : List Request :=
  [.markTypecheck "a.tl", .insert Graph.tableAfterRepair.sources [] none 2 "b.tl" [],
    .query (.find "./b.tl"), .markCompile "b.tl"]

theorem asked_repair :
    ((start Graph.beforeRepair).serveAll repairRequests).map Session.asked =
      some [⟨"b.tl", true⟩] := by
  decide +kernel

theorem keeps_records_repair :
    ∃ after, (start Graph.beforeRepair).serveAll repairRequests = some after ∧
      after.asked = [⟨"b.tl", true⟩] ∧ Keeps repairRequests (start Graph.beforeRepair) after := by
  obtain ⟨after, hserved, hasked⟩ := Option.map_eq_some_iff.1 asked_repair
  exact ⟨after, hserved, hasked, keeps_records hserved⟩

end Session

end Rebuild
