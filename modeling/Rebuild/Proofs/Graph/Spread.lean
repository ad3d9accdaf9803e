import Rebuild.Graph.Marking
import Rebuild.Proofs.Graph.Closure

/-!
# How far a marking walk spreads

A walk changes marks only.  It turns an unset node into one to type-check, and when it is over, no
node that it has marked has an unset dependent.  These two facts carry over to walks made one after
the other, and together they fix what a walk marks: the nodes reached from its start along
dependents without a marked node on the way.

The walk is written down as a relation without a bound on its depth.  Each level marks another unset
node, so the levels that a walk is given are enough.  The paths a walk has seen all carry a mark, so
a walk that looks at marks alone is the same.
-/

namespace Rebuild.Graph

variable {graph : Graph} {path : Text}

def markAt (graph : Graph) (path : Text) : Option Mark :=
  (graph.get? path).map Node.mark

def IsUnset (graph : Graph) (path : Text) : Prop :=
  graph.markAt path = some .unset

instance (graph : Graph) (path : Text) : Decidable (graph.IsUnset path) :=
  inferInstanceAs (Decidable (graph.markAt path = some .unset))

theorem markAt_input {node : Node} (hnode : node ∈ graph.nodes) :
    graph.markAt node.input = some node.mark := by
  simp [markAt, get?_input hnode]

theorem isUnset_congr {first second : Graph} (hmark : first.markAt path = second.markAt path) :
    first.IsUnset path ↔ second.IsUnset path := by
  rw [IsUnset, IsUnset, hmark]

theorem IsUnset.mem_inputs (hunset : graph.IsUnset path) : path ∈ graph.inputs := by
  by_contra hpath
  simp [IsUnset, markAt, get?_eq_none_iff.2 hpath] at hunset

/-! ## Graphs that differ in marks -/

/-- The nodes without their marks: what no marking changes. -/
def unmarked (graph : Graph) : List Node :=
  graph.nodes.map fun node => { node with mark := .unset }

theorem inputs_eq_of_unmarked_eq {first second : Graph}
    (hunmarked : first.unmarked = second.unmarked) : first.inputs = second.inputs := by
  have hinputs (graph : Graph) : graph.inputs = graph.unmarked.map Node.input := by
    simp [inputs, unmarked]
  rw [hinputs, hinputs, hunmarked]

theorem dependentsAt_eq_of_unmarked_eq {first second : Graph}
    (hunmarked : first.unmarked = second.unmarked) (path : Text) :
    first.dependentsAt path = second.dependentsAt path := by
  have hdependents (graph : Graph) :
      graph.dependentsAt path =
        ((graph.unmarked.find? fun node => node.input == path).map
          Node.dependents).getD ∅ := by
    rw [unmarked, List.find?_map, Option.map_map]
    rfl
  rw [hdependents, hdependents, hunmarked]

theorem unmarked_setMark {mark : Mark} : (graph.setMark path mark).unmarked = graph.unmarked := by
  rw [unmarked, nodes_setMark, List.map_map, unmarked]
  apply List.map_congr_left
  intro node _
  by_cases hinput : node.input = path <;> simp [hinput]

theorem markAt_setMark {other : Text} {mark : Mark} :
    (graph.setMark path mark).markAt other =
      if other = path ∧ path ∈ graph.inputs then some mark else graph.markAt other := by
  unfold markAt
  rw [get?_setMark]
  by_cases hother : other = path
  · subst hother
    cases hget : graph.get? other with
    | none => simp [get?_eq_none_iff.1 hget]
    | some node => simp [mem_inputs_of_get? hget]
  · simp [hother]

/-! ## Walks -/

/-- A way along dependents from an unset node, over unset nodes only. -/
def UnsetReach (graph : Graph) (start target : Text) : Prop :=
  graph.IsUnset start ∧
    Relation.ReflTransGen
      (fun path dependent => dependent ∈ graph.dependentsAt path ∧ graph.IsUnset dependent)
      start target

theorem UnsetReach.isUnset {start target : Text} (hreach : graph.UnsetReach start target) :
    graph.IsUnset target := by
  obtain ⟨hstart, hway⟩ := hreach
  cases hway with
  | refl => exact hstart
  | tail _ hlast => exact hlast.2

/-- What walks from the given starts, one after the other, have done to the marks. -/
structure Spread (before after : Graph) (starts : List Text) : Prop where
  unmarked : after.unmarked = before.unmarked
  changed : ∀ path, after.markAt path = before.markAt path ∨
    after.markAt path = some .typecheck ∧ ∃ start ∈ starts, before.UnsetReach start path
  started : ∀ start ∈ starts, ¬after.IsUnset start
  closed : ∀ path, before.IsUnset path → ¬after.IsUnset path →
    ∀ dependent ∈ before.dependentsAt path, ¬after.IsUnset dependent

namespace Spread

variable {before middle after : Graph} {starts : List Text}

theorem refl (hstarts : ∀ start ∈ starts, ¬graph.IsUnset start) :
    Spread graph graph starts where
  unmarked := rfl
  changed _ := Or.inl rfl
  started := hstarts
  closed _ hunset hmarked := (hmarked hunset).elim

theorem isUnset (hspread : Spread before after starts) (hunset : after.IsUnset path) :
    before.IsUnset path := by
  rcases hspread.changed path with heq | ⟨hmark, _⟩
  · exact (isUnset_congr heq).1 hunset
  · rw [IsUnset, hmark] at hunset
    cases hunset

theorem dependentsAt_eq (hspread : Spread before after starts) :
    after.dependentsAt = before.dependentsAt :=
  funext (dependentsAt_eq_of_unmarked_eq hspread.unmarked)

theorem unsetReach (hspread : Spread before after starts) {start target : Text}
    (hreach : after.UnsetReach start target) : before.UnsetReach start target := by
  obtain ⟨hstart, hway⟩ := hreach
  refine ⟨hspread.isUnset hstart, ?_⟩
  rw [hspread.dependentsAt_eq] at hway
  exact Relation.ReflTransGen.mono
    (fun _ _ hstep => ⟨hstep.1, hspread.isUnset hstep.2⟩) start target hway

theorem trans {more : List Text} (hfirst : Spread before middle starts)
    (hsecond : Spread middle after more) : Spread before after (starts ++ more) where
  unmarked := hsecond.unmarked.trans hfirst.unmarked
  changed path := by
    rcases hsecond.changed path with heq | ⟨hmark, start, hstart, hreach⟩
    · rw [heq]
      refine (hfirst.changed path).imp_right ?_
      rintro ⟨hmark, start, hstart, hreach⟩
      exact ⟨hmark, start, List.mem_append_left more hstart, hreach⟩
    · exact Or.inr
        ⟨hmark, start, List.mem_append_right starts hstart, hfirst.unsetReach hreach⟩
  started start hstart := by
    rcases List.mem_append.1 hstart with hstart | hstart
    · exact fun hunset => hfirst.started start hstart (hsecond.isUnset hunset)
    · exact hsecond.started start hstart
  closed path hunset hmarked dependent hdependent := by
    by_cases hmiddle : middle.IsUnset path
    · rw [← hfirst.dependentsAt_eq] at hdependent
      exact hsecond.closed path hmiddle hmarked dependent hdependent
    · exact fun hafter =>
        hfirst.closed path hunset hmiddle dependent hdependent (hsecond.isUnset hafter)

/-- Walks mark what they reach over unset nodes, and nothing else. -/
theorem isUnset_iff (hspread : Spread before after starts)
    (hunset : before.IsUnset path) :
    after.IsUnset path ↔ ¬∃ start ∈ starts, before.UnsetReach start path := by
  constructor
  · rintro hafter ⟨start, hstart, hstartUnset, hway⟩
    -- the walk cannot have stopped anywhere on the way from its start
    suffices hmarked : ¬after.IsUnset path from hmarked hafter
    clear hafter hunset
    induction hway with
    | refl => exact hspread.started start hstart
    | tail hway hlast ih =>
        have hreach : before.UnsetReach start _ := ⟨hstartUnset, hway⟩
        exact hspread.closed _ hreach.isUnset ih _ hlast.1
  · intro hnone
    rcases hspread.changed path with heq | ⟨_, hreach⟩
    · exact (isUnset_congr heq).2 hunset
    · exact (hnone hreach).elim

theorem cons (hunset : graph.IsUnset path)
    (hspread : Spread (graph.setMark path .typecheck) after
      (graph.dependentsAt path).toList) :
    Spread graph after [path] := by
  have hmem := hunset.mem_inputs
  have hdependents : (graph.setMark path .typecheck).dependentsAt = graph.dependentsAt :=
    funext (dependentsAt_eq_of_unmarked_eq unmarked_setMark)
  have hmarkAt (other : Text) (hother : other ≠ path) :
      (graph.setMark path .typecheck).markAt other = graph.markAt other := by
    simp [markAt_setMark, hother]
  have hself : (graph.setMark path .typecheck).markAt path = some .typecheck := by
    simp [markAt_setMark, hmem]
  have hset (other : Text) (h : (graph.setMark path .typecheck).IsUnset other) :
      other ≠ path ∧ graph.IsUnset other := by
    have hother : other ≠ path := by
      rintro rfl
      rw [IsUnset, hself] at h
      cases h
    exact ⟨hother, (isUnset_congr (hmarkAt other hother)).1 h⟩
  refine ⟨hspread.unmarked.trans unmarked_setMark, ?_, ?_, ?_⟩
  · intro other
    rcases hspread.changed other with heq | ⟨hmark, start, hstart, hreach⟩
    · by_cases hother : other = path
      · subst hother
        exact Or.inr ⟨heq.trans hself, other, List.mem_singleton_self other, hunset, .refl⟩
      · exact Or.inl (heq.trans (hmarkAt other hother))
    · refine Or.inr ⟨hmark, path, List.mem_singleton_self path, hunset, ?_⟩
      obtain ⟨hstartUnset, hway⟩ := hreach
      rw [hdependents] at hway
      refine Relation.ReflTransGen.head ⟨hstart, (hset start hstartUnset).2⟩ ?_
      exact Relation.ReflTransGen.mono
        (fun _ _ hstep => ⟨hstep.1, (hset _ hstep.2).2⟩) start other hway
  · intro start hstart hafter
    rw [List.mem_singleton.1 hstart] at hafter
    exact (hset path (hspread.isUnset hafter)).1 rfl
  · intro other hother hmarked dependent hdependent
    by_cases heq : other = path
    · exact hspread.started dependent (heq ▸ hdependent)
    · apply hspread.closed other _ hmarked dependent
      · rwa [hdependents]
      · rw [IsUnset, hmarkAt other heq]
        exact hother

end Spread

/-! ## Unset nodes -/

/-- The unset nodes, of which every level of a walk marks another one. -/
def unsetInputs (graph : Graph) : Finset Text :=
  graph.inputs.toFinset.filter graph.IsUnset

theorem mem_unsetInputs : path ∈ graph.unsetInputs ↔ graph.IsUnset path := by
  rw [unsetInputs, Finset.mem_filter, List.mem_toFinset]
  exact ⟨fun h => h.2, fun h => ⟨h.mem_inputs, h⟩⟩

theorem card_unsetInputs_le (graph : Graph) : graph.unsetInputs.card ≤ graph.size := by
  calc
    graph.unsetInputs.card ≤ graph.inputs.toFinset.card := Finset.card_filter_le _ _
    _ ≤ graph.inputs.length := List.toFinset_card_le _
    _ = graph.size := graph.length_inputs

theorem Spread.card_unsetInputs_le {before after : Graph} {starts : List Text}
    (hspread : Spread before after starts) :
    after.unsetInputs.card ≤ before.unsetInputs.card :=
  Finset.card_le_card fun _ hpath =>
    mem_unsetInputs.2 (hspread.isUnset (mem_unsetInputs.1 hpath))

theorem card_unsetInputs_setMark_lt (hunset : graph.IsUnset path) :
    (graph.setMark path .typecheck).unsetInputs.card < graph.unsetInputs.card := by
  apply Finset.card_lt_card
  rw [Finset.ssubset_iff_of_subset]
  · refine ⟨path, mem_unsetInputs.2 hunset, ?_⟩
    rw [mem_unsetInputs, IsUnset, markAt_setMark]
    simp [hunset.mem_inputs]
  · intro other hother
    rw [mem_unsetInputs, IsUnset, markAt_setMark] at hother
    split at hother
    · cases hother
    · exact mem_unsetInputs.2 hother

/-! ## Walks without a bound on their depth -/

/-- A walk from some paths, one after the other, on a graph and the paths seen.  It stops at nodes
that carry a mark and, if it heeds what it has seen, at the paths seen as well. -/
inductive Walks (heeds : Bool) :
    (paths : List Text) → (before after : Graph × List Text) → Prop
  | done {state : Graph × List Text} : Walks heeds [] state state
  | absent {path : Text} {rest seen : List Text} {graph : Graph}
      {after : Graph × List Text} (hnone : graph.get? path = none)
      (hrest : Walks heeds rest (graph, seen) after) :
      Walks heeds (path :: rest) (graph, seen) after
  | stopped {path : Text} {rest seen : List Text} {graph : Graph} {node : Node}
      {after : Graph × List Text} (hget : graph.get? path = some node)
      (hstop : node.mark ≠ .unset ∨ heeds = true ∧ path ∈ seen)
      (hrest : Walks heeds rest (graph, seen) after) :
      Walks heeds (path :: rest) (graph, seen) after
  | entered {path : Text} {rest seen : List Text} {graph : Graph} {node : Node}
      {middle after : Graph × List Text} (hget : graph.get? path = some node)
      (hgo : ¬(node.mark ≠ .unset ∨ heeds = true ∧ path ∈ seen))
      (hown : Walks heeds node.dependents.toList
        (graph.setMark path .typecheck, path :: seen) middle)
      (hrest : Walks heeds rest middle after) : Walks heeds (path :: rest) (graph, seen) after

def SeenMarked (state : Graph × List Text) : Prop :=
  ∀ path ∈ state.2, ¬state.1.IsUnset path

theorem SeenMarked.enter {seen : List Text} (hseen : SeenMarked (graph, seen))
    (hpath : path ∈ graph.inputs) :
    SeenMarked (graph.setMark path .typecheck, path :: seen) := by
  intro other hother
  rw [IsUnset, markAt_setMark]
  split
  next => simp
  next hnot =>
    rcases List.mem_cons.1 hother with rfl | hother
    · exact (hnot ⟨rfl, hpath⟩).elim
    · exact hseen other hother

namespace Walks

variable {heeds : Bool} {paths rest : List Text} {before middle after : Graph × List Text}

/-- Every step of a walk is settled by what it meets. -/
theorem unique {other : Graph × List Text} (hwalk : Walks heeds paths before after)
    (hother : Walks heeds paths before other) : other = after := by
  induction hwalk generalizing other with
  | done =>
      cases hother
      rfl
  | absent hnone _ ih =>
      cases hother with
      | absent _ hrest => exact ih hrest
      | stopped hget => simp [hnone] at hget
      | entered hget => simp [hnone] at hget
  | stopped hget hstop _ ih =>
      cases hother with
      | absent hnone => simp [hget] at hnone
      | stopped _ _ hrest => exact ih hrest
      | entered hsame hgo =>
          obtain rfl := Option.some.inj (hget.symm.trans hsame)
          exact (hgo hstop).elim
  | entered hget hgo _ _ ihOwn ih =>
      cases hother with
      | absent hnone => simp [hget] at hnone
      | stopped hsame hstop =>
          obtain rfl := Option.some.inj (hget.symm.trans hsame)
          exact (hgo hstop).elim
      | entered hsame _ hown hrest =>
          obtain rfl := Option.some.inj (hget.symm.trans hsame)
          obtain rfl := ihOwn hown
          exact ih hrest

theorem cons (hfirst : Walks heeds [path] before middle) (hrest : Walks heeds rest middle after) :
    Walks heeds (path :: rest) before after := by
  cases hfirst with
  | absent hnone hnil =>
      cases hnil
      exact .absent hnone hrest
  | stopped hget hstop hnil =>
      cases hnil
      exact .stopped hget hstop hrest
  | entered hget hgo hown hnil =>
      cases hnil
      exact .entered hget hgo hown hrest

/-- What a walk does to the marks, if all paths seen are marked at its start. -/
theorem spread (hwalk : Walks heeds paths before after) (hseen : SeenMarked before) :
    Spread before.1 after.1 paths ∧ SeenMarked after := by
  induction hwalk with
  | done => exact ⟨Spread.refl fun _ hstart => (List.not_mem_nil hstart).elim, hseen⟩
  | @absent path rest seen graph after hnone _ ih =>
      obtain ⟨hspread, hafter⟩ := ih hseen
      have hunset : ¬graph.IsUnset path := fun h => get?_eq_none_iff.1 hnone h.mem_inputs
      exact ⟨(Spread.refl (List.forall_mem_singleton.2 hunset)).trans hspread, hafter⟩
  | @stopped path rest seen graph node after hget hstop _ ih =>
      obtain ⟨hspread, hafter⟩ := ih hseen
      have hunset : ¬graph.IsUnset path := by
        rcases hstop with hmark | ⟨_, hmem⟩
        · simpa [IsUnset, markAt, hget] using hmark
        · exact hseen path hmem
      exact ⟨(Spread.refl (List.forall_mem_singleton.2 hunset)).trans hspread, hafter⟩
  | @entered path rest seen graph node middle after hget hgo _ _ ihOwn ih =>
      have hunset : graph.IsUnset path := by
        rw [IsUnset, markAt, hget, Option.map_some, not_not.1 fun h => hgo (Or.inl h)]
      have hdependents : node.dependents = graph.dependentsAt path := by
        simp [dependentsAt, hget]
      obtain ⟨hown, hmiddle⟩ := ihOwn (hseen.enter hunset.mem_inputs)
      obtain ⟨hrest, hafter⟩ := ih hmiddle
      rw [hdependents] at hown
      exact ⟨(Spread.cons hunset hown).trans hrest, hafter⟩

end Walks

/-! ## Enough levels -/

theorem walks_foldl {heeds : Bool}
    {visit : Text → Graph × List Text → Graph × List Text} {levels : Nat}
    (hvisit : ∀ path state, state.1.unsetInputs.card < levels → SeenMarked state →
      Walks heeds [path] state (visit path state))
    (paths : List Text) (state : Graph × List Text)
    (hlevels : state.1.unsetInputs.card < levels) (hseen : SeenMarked state) :
    Walks heeds paths state (paths.foldl (fun state path => visit path state) state) := by
  induction paths generalizing state with
  | nil => exact .done
  | cons path rest ih =>
      have hfirst := hvisit path state hlevels hseen
      obtain ⟨hspread, hnextSeen⟩ := hfirst.spread hseen
      have hfewer := hspread.card_unsetInputs_le
      exact hfirst.cons (ih (visit path state) (by omega) hnextSeen)

/-- With more levels than unset nodes the walk is not cut off.  It makes no difference whether it
heeds what it has seen, because all of that is marked. -/
theorem walks_spreadWithin {heeds : Bool} (levels : Nat) (path : Text)
    (state : Graph × List Text) (hlevels : state.1.unsetInputs.card < levels)
    (hseen : SeenMarked state) : Walks heeds [path] state (spreadWithin levels path state) := by
  induction levels generalizing path state with
  | zero => omega
  | succ levels ih =>
      obtain ⟨graph, seen⟩ := state
      unfold spreadWithin
      cases hget : graph.get? path with
      | none => exact .absent hget .done
      | some node =>
          have hmarkAt : graph.markAt path = some node.mark := by simp [markAt, hget]
          dsimp only
          split
          next hstop =>
            have hmark : node.mark ≠ .unset := by
              rcases hstop with hmark | hmem
              · exact hmark
              · simpa [IsUnset, hmarkAt] using hseen path hmem
            exact .stopped hget (Or.inl hmark) .done
          next hgo =>
            have hunset : graph.IsUnset path := by
              rw [IsUnset, hmarkAt, not_not.1 fun h => hgo (Or.inl h)]
            have hfewer := card_unsetInputs_setMark_lt hunset
            have hown := walks_foldl ih node.dependents.toList
              (graph.setMark path .typecheck, path :: seen)
              (by dsimp only at hlevels ⊢; omega) (hseen.enter hunset.mem_inputs)
            exact .entered hget (fun h => hgo (h.imp_right And.right)) hown .done

theorem walks_spread {heeds : Bool} {seen : List Text} (hseen : SeenMarked (graph, seen))
    (path : Text) : Walks heeds [path] (graph, seen) (graph.spread seen path) :=
  walks_spreadWithin (graph.size + 1) path (graph, seen)
    (Nat.lt_succ_of_le graph.card_unsetInputs_le) hseen

theorem walks_markTypecheck (heeds : Bool) (graph : Graph) (path : Text) :
    ∃ seen, Walks heeds [path] (graph, []) (graph.markTypecheck path, seen) :=
  ⟨_, walks_spread (fun _ hpath => (List.not_mem_nil hpath).elim) path⟩

theorem markTypecheck_spread (graph : Graph) (path : Text) :
    Spread graph (graph.markTypecheck path) [path] := by
  obtain ⟨seen, hwalk⟩ := walks_markTypecheck true graph path
  exact (hwalk.spread fun _ hpath => (List.not_mem_nil hpath).elim).1

theorem seenMarked_setMark_compile (hpath : path ∈ graph.inputs) :
    SeenMarked (graph.setMark path .compile, [path]) := by
  intro other hother
  rw [List.mem_singleton.1 hother, IsUnset, markAt_setMark]
  simp [hpath]

theorem markCompile_of_compile (hmark : graph.markAt path = some .compile) :
    graph.markCompile path = graph := by
  obtain ⟨node, hget, hnode⟩ := Option.map_eq_some_iff.1 hmark
  simp [markCompile, hget, hnode]

/-- A request for compilation walks from the dependents of the node once the node carries its
mark. -/
theorem walks_markCompile (heeds : Bool) (hpath : path ∈ graph.inputs)
    (hmark : graph.markAt path ≠ some .compile) :
    ∃ seen, Walks heeds (graph.dependentsAt path).toList (graph.setMark path .compile, [path])
      (graph.markCompile path, seen) := by
  unfold markCompile
  cases hget : graph.get? path with
  | none => exact (get?_eq_none_iff.1 hget hpath).elim
  | some node =>
      have hnode : ¬node.mark = .compile := by simpa [markAt, hget] using hmark
      have hdependents : node.dependents = graph.dependentsAt path := by
        simp [dependentsAt, hget]
      simp only [hnode, if_false, hdependents]
      exact ⟨_, walks_foldl (fun dependent state _ hseen => walks_spread hseen dependent)
        _ _ (Nat.lt_succ_self _) (seenMarked_setMark_compile hpath)⟩

/-- A request for compilation finds nothing to do, or walks from the dependents of the node once
the node carries its mark. -/
theorem markCompile_cases (graph : Graph) (path : Text) :
    graph.markCompile path = graph ∧
        (path ∈ graph.inputs → graph.markAt path = some .compile) ∨
      path ∈ graph.inputs ∧
        Spread (graph.setMark path .compile) (graph.markCompile path)
          (graph.dependentsAt path).toList := by
  by_cases hpath : path ∈ graph.inputs
  · by_cases hmark : graph.markAt path = some .compile
    · exact Or.inl ⟨markCompile_of_compile hmark, fun _ => hmark⟩
    · obtain ⟨seen, hwalk⟩ := walks_markCompile true hpath hmark
      exact Or.inr ⟨hpath, (hwalk.spread (seenMarked_setMark_compile hpath)).1⟩
  · exact Or.inl ⟨by simp [markCompile, get?_eq_none_iff.2 hpath], fun h => (hpath h).elim⟩

theorem unmarked_markCompile : (graph.markCompile path).unmarked = graph.unmarked := by
  rcases markCompile_cases graph path with ⟨hsame, _⟩ | ⟨_, hspread⟩
  · rw [hsame]
  · exact hspread.unmarked.trans unmarked_setMark

theorem markAt_markCompile_iff {other : Text} (hother : other ∈ graph.inputs) :
    (graph.markCompile path).markAt other = some .compile ↔
      other = path ∨ graph.markAt other = some .compile := by
  rcases markCompile_cases graph path with ⟨hsame, hmark⟩ | ⟨hpath, hspread⟩
  · rw [hsame]
    exact ⟨Or.inr, fun h => h.elim (fun heq => heq ▸ hmark (heq ▸ hother)) id⟩
  · have hmarks :
        (graph.setMark path .compile).markAt other = some .compile ↔
          other = path ∨ graph.markAt other = some .compile := by
      rw [markAt_setMark]
      by_cases heq : other = path <;> simp [heq, hpath]
    rw [← hmarks]
    rcases hspread.changed other with heq | ⟨hafter, start, _, hreach⟩
    · rw [heq]
    · have hunset : (graph.setMark path .compile).markAt other = some .unset :=
        hreach.isUnset
      rw [hafter, hunset]
      simp

/-! ## What one request changes -/

/-- A way along dependents from an unset node, over unset nodes only and never over the one that is
avoided. -/
def UnsetReachAvoiding (graph : Graph) (avoided start target : Text) : Prop :=
  (graph.IsUnset start ∧ start ≠ avoided) ∧
    Relation.ReflTransGen
      (fun path dependent =>
        dependent ∈ graph.dependentsAt path ∧ graph.IsUnset dependent ∧ dependent ≠ avoided)
      start target

theorem unsetReach_setMark_compile (graph : Graph) (path : Text) :
    (graph.setMark path .compile).UnsetReach = graph.UnsetReachAvoiding path := by
  have hunset : ∀ other,
      (graph.setMark path .compile).IsUnset other ↔ graph.IsUnset other ∧ other ≠ path := by
    intro other
    rw [IsUnset, markAt_setMark]
    by_cases hother : other = path
    · subst hother
      by_cases hpath : other ∈ graph.inputs
      · simp [hpath]
      · have hnone : ¬graph.IsUnset other := fun h => hpath h.mem_inputs
        simpa [hpath, IsUnset] using hnone
    · simp [hother, IsUnset]
  funext start target
  simp only [UnsetReach, UnsetReachAvoiding, hunset,
    dependentsAt_eq_of_unmarked_eq unmarked_setMark]

theorem Spread.markAt_of_reach {before after : Graph} {starts : List Text}
    (hspread : Spread before after starts)
    (hreach : ∃ start ∈ starts, before.UnsetReach start path) :
    after.markAt path = some .typecheck := by
  obtain ⟨start, hstart, hway⟩ := hreach
  have hmarked : ¬after.IsUnset path := fun hafter =>
    (hspread.isUnset_iff hway.isUnset).1 hafter ⟨start, hstart, hway⟩
  rcases hspread.changed path with heq | ⟨hmark, _⟩
  · exact (hmarked ((isUnset_congr heq).2 hway.isUnset)).elim
  · exact hmark

theorem Spread.markAt_of_not_reach {before after : Graph} {starts : List Text}
    (hspread : Spread before after starts)
    (hnone : ¬∃ start ∈ starts, before.UnsetReach start path) :
    after.markAt path = before.markAt path :=
  (hspread.changed path).resolve_right fun h => hnone h.2

/-- On every graph, with any marks and any dependents: the walk of a request ends, heeding what it
has seen or not, always with the same graph.  A request for a type check turns the unset nodes that
are reached from its node over unset nodes.  A request for compilation does nothing to a node that
has its mark; otherwise it sets the mark and turns the other nodes that are reached from the
dependents over unset nodes other than its own.  Nothing else changes. -/
theorem requests_exact (graph : Graph) (path : Text) (hpath : path ∈ graph.inputs) :
    ((∀ heeds, ∃ seen, ∀ after, Walks heeds [path] (graph, []) after ↔
          after = (graph.markTypecheck path, seen)) ∧
        (graph.markTypecheck path).unmarked = graph.unmarked ∧
        ∀ other,
          (graph.UnsetReach path other →
            (graph.markTypecheck path).markAt other = some .typecheck) ∧
          (¬graph.UnsetReach path other →
            (graph.markTypecheck path).markAt other = graph.markAt other)) ∧
      (graph.markAt path = some .compile → graph.markCompile path = graph) ∧
      (graph.markAt path ≠ some .compile →
        (∀ heeds, ∃ seen, ∀ after,
          Walks heeds (graph.dependentsAt path).toList (graph.setMark path .compile, [path])
              after ↔
            after = (graph.markCompile path, seen)) ∧
        (graph.markCompile path).unmarked = graph.unmarked ∧
        (graph.markCompile path).markAt path = some .compile ∧
        ∀ other, other ≠ path →
          ((∃ start ∈ graph.dependentsAt path, graph.UnsetReachAvoiding path start other) →
            (graph.markCompile path).markAt other = some .typecheck) ∧
          (¬(∃ start ∈ graph.dependentsAt path, graph.UnsetReachAvoiding path start other) →
            (graph.markCompile path).markAt other = graph.markAt other)) := by
  refine ⟨⟨fun heeds => ?_, ?_, fun other => ?_⟩, markCompile_of_compile, fun hmark => ?_⟩
  · obtain ⟨seen, hwalk⟩ := walks_markTypecheck heeds graph path
    exact ⟨seen, fun after => ⟨hwalk.unique, fun heq => heq ▸ hwalk⟩⟩
  · exact (markTypecheck_spread graph path).unmarked
  · have hspread := markTypecheck_spread graph path
    have hone : (∃ start ∈ [path], graph.UnsetReach start other) ↔ graph.UnsetReach path other := by
      simp
    rw [← hone]
    exact ⟨hspread.markAt_of_reach, hspread.markAt_of_not_reach⟩
  · obtain ⟨seen, hwalk⟩ := walks_markCompile true hpath hmark
    have hspread := (hwalk.spread (seenMarked_setMark_compile hpath)).1
    refine ⟨fun heeds => ?_, unmarked_markCompile, ?_, fun other hother => ?_⟩
    · obtain ⟨seen, hwalk⟩ := walks_markCompile heeds hpath hmark
      exact ⟨seen, fun after => ⟨hwalk.unique, fun heq => heq ▸ hwalk⟩⟩
    · exact (markAt_markCompile_iff hpath).2 (Or.inl rfl)
    · have hsame : (graph.setMark path .compile).markAt other = graph.markAt other := by
        rw [markAt_setMark, if_neg fun h => hother h.1]
      rw [← unsetReach_setMark_compile, ← hsame]
      exact ⟨hspread.markAt_of_reach, hspread.markAt_of_not_reach⟩

/-- A cycle of `a` and `b`, with `c` above it, which hides `d` because it is compiled.  The
dependents are not closed, and one of them is no node. -/
def hiddenAbove : Graph where
  nodes :=
    [⟨"a.tl", none, [], [], .ofList ["b.tl", "gone.tl"], .unset⟩,
      ⟨"b.tl", none, [], [], .ofList ["a.tl", "c.tl"], .unset⟩,
      ⟨"c.tl", none, [], [], .ofList ["d.tl"], .compile⟩,
      ⟨"d.tl", none, [], [], ∅, .unset⟩]
  distinct := by decide

theorem requests_exact_hiddenAbove :
    ("b.tl" : Text) ∈ hiddenAbove.inputs ∧ hiddenAbove.markAt "b.tl" ≠ some .compile ∧
      ¬hiddenAbove.UnsetReach "b.tl" "d.tl" ∧
      (hiddenAbove.markTypecheck "b.tl").markAt "a.tl" = some .typecheck ∧
      (hiddenAbove.markCompile "b.tl").markAt "a.tl" = some .typecheck ∧
      (hiddenAbove.markCompile "b.tl").markAt "d.tl" = some .unset := by
  have hpath : ("b.tl" : Text) ∈ hiddenAbove.inputs := by decide
  have hmark : hiddenAbove.markAt "b.tl" ≠ some .compile := by decide +kernel
  obtain ⟨⟨_, _, htypecheck⟩, _, hcompile⟩ := requests_exact hiddenAbove "b.tl" hpath
  obtain ⟨_, _, _, hothers⟩ := hcompile hmark
  have hstart : hiddenAbove.IsUnset "b.tl" := by decide +kernel
  have hnext : hiddenAbove.IsUnset "a.tl" := by decide +kernel
  have hdependent : ("a.tl" : Text) ∈ hiddenAbove.dependentsAt "b.tl" := by decide +kernel
  have hhidden : (hiddenAbove.markTypecheck "b.tl").markAt "d.tl" = some .unset := by
    decide +kernel
  have hunreached : ¬hiddenAbove.UnsetReach "b.tl" "d.tl" := by
    intro hreach
    have hturned := (htypecheck "d.tl").1 hreach
    rw [hhidden] at hturned
    cases hturned
  refine ⟨hpath, hmark, hunreached, ?_, ?_, ?_⟩
  · exact (htypecheck "a.tl").1 ⟨hstart, .single ⟨hdependent, hnext⟩⟩
  · exact (hothers "a.tl" (by decide)).1 ⟨"a.tl", hdependent, ⟨hnext, by decide⟩, .refl⟩
  · decide +kernel

end Rebuild.Graph
