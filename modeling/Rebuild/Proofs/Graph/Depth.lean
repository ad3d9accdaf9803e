import Rebuild.Proofs.Graph.Insertion

/-!
# The depth an insertion needs

Every level of a search that goes on adds a node, and the node is the place of a module.  When all
places of modules are among finitely many paths, the search is never deeper than the number of those
that are no nodes yet, so one level more is always enough.
-/

namespace Rebuild.Insertion

variable {σ ε : Type} {sources : Sources σ ε} {here : Location} {scope : Option Text}

def remaining (targets : Finset Text) (graph : Graph) : Finset Text :=
  targets.filter (· ∉ graph.inputs)

theorem card_remaining_le {targets : Finset Text} {before after : Graph}
    (hinputs : ∀ path ∈ before.inputs, path ∈ after.inputs) :
    (remaining targets after).card ≤ (remaining targets before).card := by
  apply Finset.card_le_card
  intro path hpath
  rw [remaining, Finset.mem_filter] at hpath ⊢
  exact ⟨hpath.1, fun hmem => hpath.2 (hinputs path hmem)⟩

theorem card_remaining_add_lt {targets : Finset Text} {graph : Graph} {node : Node}
    (htarget : node.input ∈ targets) (hnew : node.input ∉ graph.inputs) :
    (remaining targets (graph.add node)).card < (remaining targets graph).card := by
  apply Finset.card_lt_card
  rw [Finset.ssubset_iff_of_subset]
  · refine ⟨node.input, Finset.mem_filter.2 ⟨htarget, hnew⟩, ?_⟩
    simp [remaining, Graph.inputs_add hnew]
  · intro path hpath
    simp only [remaining, Finset.mem_filter, Graph.inputs_add hnew, List.mem_append,
      not_or] at hpath ⊢
    exact ⟨hpath.1, hpath.2.1⟩

theorem mem_inputs_follow {path reference : Text}
    {visit : Text → Insertion σ ε → Insertion σ ε} {run : Insertion σ ε}
    (hvisit : ∀ text (run : Insertion σ ε), run.graph.Extends (visit text run).graph) :
    ∀ other ∈ run.graph.inputs,
      other ∈ (follow sources here scope path visit run reference).graph.inputs := by
  intro other hother
  have hstep := followStep_follow sources here scope path visit run reference
  generalize follow sources here scope path visit run reference = result at hstep
  cases hstep with
  | stopped => exact hother
  | unresolved => exact hother
  | recorded => rwa [Graph.inputs_recordModule]
  | entered =>
      apply (hvisit _ _).mem_inputs
      rwa [Graph.inputs_recordModule]

/-- Every place at which a required module is inserted is among the targets. -/
def LeadsTo (sources : Sources σ ε) (here : Location) (scope : Option Text)
    (targets : Finset Text) : Prop :=
  ∀ path before references after reference found,
    (sources.requires path before).1 = .refs references → reference ∈ references →
      (sources.resolve reference after).1 = some found →
        Path.canonical (target here scope found).1 ∈ targets

theorem foldl_follow_stop_ne {targets : Finset Text} {depth : Nat} {path : Text}
    {references : List Text}
    (hvisit : ∀ text (run : Insertion σ ε), Path.canonical text ∈ targets →
      (remaining targets run.graph).card < depth → run.stop ≠ some .tooDeep →
        (visit sources here scope depth text run).stop ≠ some .tooDeep)
    (htargets : ∀ reference ∈ references, ∀ state found,
      (sources.resolve reference state).1 = some found →
        Path.canonical (target here scope found).1 ∈ targets)
    (run : Insertion σ ε) (hdepth : (remaining targets run.graph).card < depth)
    (hrun : run.stop ≠ some .tooDeep) :
    (references.foldl (follow sources here scope path (visit sources here scope depth))
      run).stop ≠ some .tooDeep := by
  induction references generalizing run with
  | nil => exact hrun
  | cons reference rest ih =>
      rw [List.foldl_cons]
      have hmore :
          (remaining targets (follow sources here scope path
            (visit sources here scope depth) run reference).graph).card ≤
          (remaining targets run.graph).card :=
        card_remaining_le (mem_inputs_follow (visit_extends sources here scope depth))
      apply ih
      · exact fun other hother => htargets other (List.mem_cons_of_mem reference hother)
      · omega
      · have hstep := followStep_follow sources here scope path
          (visit sources here scope depth) run reference
        generalize follow sources here scope path (visit sources here scope depth) run
          reference = result at hstep
        cases hstep with
        | stopped => exact hrun
        | unresolved hstop => simp [note, hstop]
        | recorded hstop => simp [hstop]
        | @entered found state hstop hanswer =>
            apply hvisit
            · exact htargets reference List.mem_cons_self run.state found (by rw [hanswer])
            · have hsame :
                  remaining targets (run.graph.recordModule path reference
                    (target here scope found).1) = remaining targets run.graph := by
                rw [remaining, Graph.inputs_recordModule, remaining]
              rwa [hsame]
            · simp [hstop]

/-- With more levels than paths that remain, a search ends before they are used up. -/
theorem visit_stop_ne_tooDeep {targets : Finset Text}
    (hleads : LeadsTo sources here scope targets) (depth : Nat) (text : Text)
    (run : Insertion σ ε) (htext : Path.canonical text ∈ targets)
    (hdepth : (remaining targets run.graph).card < depth)
    (hrun : run.stop ≠ some .tooDeep) :
    (visit sources here scope depth text run).stop ≠ some .tooDeep := by
  induction depth generalizing text run with
  | zero => omega
  | succ depth ih =>
      have hstep := visitStep_visit sources here scope depth text run
      generalize visit sources here scope (depth + 1) text run = result at hstep
      cases hstep with
      | absolute => exact hrun
      | known => exact hrun
      | otherExtension => exact hrun
      | failed => simp
      | rejected => exact hrun
      | @opened references state hrelative hnew hextension hanswer =>
          have hfewer :
              (remaining targets (run.graph.add
                (.ofRequires (Path.canonical text) references))).card <
              (remaining targets run.graph).card :=
            card_remaining_add_lt htext hnew
          apply foldl_follow_stop_ne ih
          · intro reference hreference after found hfound
            exact hleads _ run.state references after reference found
              (by rw [hanswer]) hreference hfound
          · dsimp only
            omega
          · exact hrun

end Rebuild.Insertion
