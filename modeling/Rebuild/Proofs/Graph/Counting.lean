import Rebuild.Proofs.Graph.Order

/-!
# The search for the counts

The search goes through paths one after the other.  It keeps the counts it has finished and the
paths whose counts are still open; written down as a relation it has no bound on its depth.  Each
level of the search opens another node, so it comes to an end on every graph, with cycles or
without, and the levels it is given are enough.  What the counts are is then proved by induction
over the run.
-/

namespace Rebuild.Graph

variable {graph : Graph} {path : Text} {opened paths : List Text}
  {before after : Counts × Nat}

/-- A run of the search over some paths, from the counts found before it to those found after it,
each with the sum of the paths gone through so far. -/
inductive Tallies (graph : Graph) :
    (opened paths : List Text) → (before after : Counts × Nat) → Prop
  | done {opened : List Text} {state : Counts × Nat} : Tallies graph opened [] state state
  | known {opened rest : List Text} {path : Text} {counts : Counts} {total count : Nat}
      {after : Counts × Nat} (hcount : counts.lookup path = some count)
      (hrest : Tallies graph opened rest (counts, total + (1 + count)) after) :
      Tallies graph opened (path :: rest) (counts, total) after
  | reentered {opened rest : List Text} {path : Text} {counts : Counts} {total : Nat}
      {after : Counts × Nat} (hnew : counts.lookup path = none) (hopen : path ∈ opened)
      (hrest : Tallies graph opened rest (counts, total + (1 + 0)) after) :
      Tallies graph opened (path :: rest) (counts, total) after
  | counted {opened rest : List Text} {path : Text} {counts middle : Counts}
      {total count : Nat} {after : Counts × Nat} (hnew : counts.lookup path = none)
      (hclosed : path ∉ opened)
      (hown : Tallies graph (path :: opened) (graph.dependentsOf path) (counts, 0)
        (middle, count))
      (hrest : Tallies graph opened rest (middle ++ [(path, count)], total + (1 + count)) after) :
      Tallies graph opened (path :: rest) (counts, total) after

/-- Every step of a run is settled by what it meets. -/
theorem Tallies.unique {other : Counts × Nat} (hrun : graph.Tallies opened paths before after)
    (hother : graph.Tallies opened paths before other) : other = after := by
  induction hrun generalizing other with
  | done =>
      cases hother
      rfl
  | known hcount _ ih =>
      cases hother with
      | known hsame hrest =>
          obtain rfl := Option.some.inj (hcount.symm.trans hsame)
          exact ih hrest
      | reentered hnew => simp [hcount] at hnew
      | counted hnew => simp [hcount] at hnew
  | reentered hnew hopen _ ih =>
      cases hother with
      | known hcount => simp [hnew] at hcount
      | reentered _ _ hrest => exact ih hrest
      | counted _ hclosed => exact (hclosed hopen).elim
  | counted hnew hclosed _ _ ihOwn ih =>
      cases hother with
      | known hcount => simp [hnew] at hcount
      | reentered _ hopen => exact (hclosed hopen).elim
      | counted _ _ hown hrest =>
          obtain ⟨rfl, rfl⟩ := Prod.mk.inj (ihOwn hown)
          exact ih hrest

/-! ## Levels -/

/-- Searches from the dependents of one path, made one after the other, with their sum. -/
def countEach (graph : Graph) (levels : Nat) (opened : List Text) (counts : Counts)
    (total : Nat) (dependents : List Text) : Counts × Nat :=
  dependents.foldl
    (fun (counts, total) dependent =>
      let (counts, count) := graph.countWithin levels opened counts dependent
      (counts, total + (1 + count)))
    (counts, total)

theorem countWithin_succ (levels : Nat) (opened : List Text) (counts : Counts)
    (path : Text) :
    graph.countWithin (levels + 1) opened counts path =
      match counts.lookup path with
      | some count => (counts, count)
      | none =>
        if path ∈ opened then (counts, 0)
        else
          let own := graph.countEach levels (path :: opened) counts 0 (graph.dependentsOf path)
          (own.1 ++ [(path, own.2)], own.2) :=
  rfl

theorem countEach_cons (levels : Nat) (opened : List Text) (counts : Counts) (total : Nat)
    (path : Text) (rest : List Text) :
    graph.countEach levels opened counts total (path :: rest) =
      graph.countEach levels opened (graph.countWithin levels opened counts path).1
        (total + (1 + (graph.countWithin levels opened counts path).2)) rest :=
  rfl

theorem fst_countEach (levels : Nat) (opened : List Text) (counts : Counts) (total : Nat)
    (paths : List Text) :
    (graph.countEach levels opened counts total paths).1 =
      paths.foldl (fun counts path => (graph.countWithin levels opened counts path).1)
        counts := by
  induction paths generalizing counts total with
  | nil => rfl
  | cons path rest ih => rw [countEach_cons, ih, List.foldl_cons]

/-- The nodes that are not open, of which every level of the search opens another one. -/
def unopened (graph : Graph) (opened : List Text) : Finset Text :=
  graph.inputs.toFinset.filter (· ∉ opened)

theorem card_unopened_le (graph : Graph) (opened : List Text) :
    (graph.unopened opened).card ≤ graph.size := by
  rw [← length_inputs]
  exact (Finset.card_filter_le _ _).trans graph.inputs.toFinset_card_le

theorem card_unopened_cons_lt (hpath : path ∈ graph.inputs) (hclosed : path ∉ opened) :
    (graph.unopened (path :: opened)).card < (graph.unopened opened).card := by
  apply Finset.card_lt_card
  rw [Finset.ssubset_iff_of_subset]
  · refine ⟨path, Finset.mem_filter.2 ⟨List.mem_toFinset.2 hpath, hclosed⟩, ?_⟩
    simp [unopened]
  · exact Finset.monotone_filter_right _ fun other _ hother hmem =>
      hother (List.mem_cons_of_mem path hmem)

theorem mem_dependentsOf {dependent : Text} :
    dependent ∈ graph.dependentsOf path ↔
      dependent ∈ graph.dependentsAt path ∧ dependent ∈ graph.inputs := by
  rw [dependentsOf_eq_filter, List.mem_filter, has_eq_true_iff]
  rfl

/-- With more levels than nodes that can still be opened the search is a run. -/
theorem tallies_countEach (levels : Nat) (opened : List Text) (counts : Counts) (total : Nat)
    (paths : List Text) (hpaths : ∀ path ∈ paths, path ∈ graph.inputs)
    (hlevels : (graph.unopened opened).card < levels) :
    graph.Tallies opened paths (counts, total)
      (graph.countEach levels opened counts total paths) := by
  induction levels generalizing opened counts total paths with
  | zero => omega
  | succ levels ih =>
      induction paths generalizing counts total with
      | nil => exact .done
      | cons path rest ihPaths =>
          have hrest (counts : Counts) (total : Nat) :=
            ihPaths counts total fun other hother => hpaths other (List.mem_cons_of_mem path hother)
          rw [countEach_cons, countWithin_succ]
          cases hlookup : counts.lookup path with
          | some count => exact .known hlookup (hrest _ _)
          | none =>
              dsimp only
              by_cases hopen : path ∈ opened
              · rw [if_pos hopen]
                exact .reentered hlookup hopen (hrest _ _)
              · rw [if_neg hopen]
                have hfewer := card_unopened_cons_lt (hpaths path List.mem_cons_self) hopen
                have hown := ih (path :: opened) counts 0 (graph.dependentsOf path)
                  (fun dependent hdependent => (mem_dependentsOf.1 hdependent).2) (by omega)
                exact .counted hlookup hopen hown (hrest _ _)

/-- The search for all counts is a run over all nodes. -/
theorem exists_tallies_dependentCounts (graph : Graph) :
    ∃ total, graph.Tallies [] graph.inputs ([], 0) (graph.dependentCounts, total) := by
  have hrun := tallies_countEach (graph.size + 1) [] [] 0 graph.inputs (fun _ hpath => hpath)
    (Nat.lt_succ_of_le (graph.card_unopened_le []))
  have hcounts : graph.dependentCounts =
      (graph.countEach (graph.size + 1) [] [] 0 graph.inputs).1 :=
    (fst_countEach _ _ _ _ _).symm
  rw [hcounts]
  exact ⟨_, hrun⟩

/-! ## What is counted -/

/-- Counts are found for nodes that are not open, and for each of them once. -/
structure Finished (graph : Graph) (opened : List Text) (counts : Counts) : Prop where
  nodup : (counts.map Prod.fst).Nodup
  node : ∀ path ∈ counts.map Prod.fst, path ∈ graph.inputs
  closed : ∀ path ∈ counts.map Prod.fst, path ∉ opened

theorem Counts.lookup_eq_none_iff {counts : Counts} :
    counts.lookup path = none ↔ path ∉ counts.map Prod.fst := by
  rw [List.lookup_eq_none_iff, List.mem_map]
  simp only [bne_iff_ne, not_exists, not_and, ne_comm]

theorem Finished.cons {counts : Counts} (hfinished : graph.Finished opened counts)
    (hnew : counts.lookup path = none) : graph.Finished (path :: opened) counts where
  nodup := hfinished.nodup
  node := hfinished.node
  closed other hother hmem := by
    rcases List.mem_cons.1 hmem with rfl | hmem
    · exact Counts.lookup_eq_none_iff.1 hnew hother
    · exact hfinished.closed other hother hmem

theorem Counts.mem_keys_append {counts : Counts} {count : Nat} {other : Text} :
    other ∈ (counts ++ [(path, count)]).map Prod.fst ↔
      other ∈ counts.map Prod.fst ∨ other = path := by
  rw [List.map_append, List.mem_append, List.map_singleton, List.mem_singleton]

theorem Finished.append {counts : Counts} {count : Nat}
    (hfinished : graph.Finished (path :: opened) counts) (hpath : path ∈ graph.inputs)
    (hclosed : path ∉ opened) : graph.Finished opened (counts ++ [(path, count)]) where
  nodup := by
    have hnew : path ∉ counts.map Prod.fst := fun hmem =>
      hfinished.closed path hmem List.mem_cons_self
    rw [List.map_append, List.map_singleton, ← List.concat_eq_append]
    exact hfinished.nodup.concat hnew
  node other hother := by
    rcases Counts.mem_keys_append.1 hother with hother | rfl
    · exact hfinished.node other hother
    · exact hpath
  closed other hother := by
    rcases Counts.mem_keys_append.1 hother with hother | rfl
    · exact fun hmem => hfinished.closed other hother (List.mem_cons_of_mem path hmem)
    · exact hclosed

/-- A run only adds counts, and when it is over each of its paths has one or is open. -/
theorem Tallies.finished (hrun : graph.Tallies opened paths before after)
    (hpaths : ∀ path ∈ paths, path ∈ graph.inputs) (hbefore : graph.Finished opened before.1) :
    graph.Finished opened after.1 ∧ before.1 <+: after.1 ∧
      ∀ path ∈ paths, path ∈ opened ∨ path ∈ after.1.map Prod.fst := by
  induction hrun with
  | done => exact ⟨hbefore, List.prefix_rfl, fun _ hpath => (List.not_mem_nil hpath).elim⟩
  | @known opened rest path counts total count after hcount _ ih =>
      obtain ⟨hafter, hadded, hrest⟩ :=
        ih (fun other hother => hpaths other (List.mem_cons_of_mem path hother)) hbefore
      refine ⟨hafter, hadded, fun other hother => ?_⟩
      rcases List.mem_cons.1 hother with rfl | hother
      · have hmem : other ∈ counts.map Prod.fst := by
          by_contra hnot
          rw [Counts.lookup_eq_none_iff.2 hnot] at hcount
          cases hcount
        exact Or.inr ((hadded.map Prod.fst).subset hmem)
      · exact hrest other hother
  | @reentered opened rest path counts total after _ hopen _ ih =>
      obtain ⟨hafter, hadded, hrest⟩ :=
        ih (fun other hother => hpaths other (List.mem_cons_of_mem path hother)) hbefore
      refine ⟨hafter, hadded, fun other hother => ?_⟩
      rcases List.mem_cons.1 hother with rfl | hother
      · exact Or.inl hopen
      · exact hrest other hother
  | @counted opened rest path counts middle total count after hnew hclosed _ _ ihOwn ih =>
      have hpath := hpaths path List.mem_cons_self
      obtain ⟨hmiddle, hown, _⟩ :=
        ihOwn (fun dependent hdependent => (mem_dependentsOf.1 hdependent).2) (hbefore.cons hnew)
      obtain ⟨hafter, hadded, hrest⟩ :=
        ih (fun other hother => hpaths other (List.mem_cons_of_mem path hother))
          (hmiddle.append hpath hclosed)
      refine ⟨hafter, (hown.trans (List.prefix_append _ _)).trans hadded, fun other hother => ?_⟩
      rcases List.mem_cons.1 hother with rfl | hother
      · exact Or.inr ((hadded.map Prod.fst).subset (by simp))
      · exact hrest other hother

/-- Every node has one count, and nothing else has one. -/
theorem perm_inputs_dependentCounts (graph : Graph) :
    (graph.dependentCounts.map Prod.fst).Perm graph.inputs := by
  obtain ⟨total, hrun⟩ := graph.exists_tallies_dependentCounts
  have hnone : graph.Finished [] [] :=
    ⟨List.nodup_nil, fun _ hpath => (List.not_mem_nil hpath).elim,
      fun _ hpath => (List.not_mem_nil hpath).elim⟩
  obtain ⟨hfinished, _, hall⟩ := hrun.finished (fun _ hpath => hpath) hnone
  rw [List.perm_ext_iff_of_nodup hfinished.nodup graph.nodup_inputs]
  exact fun path => ⟨hfinished.node path, fun hpath => (hall path hpath).resolve_left (by simp)⟩

end Rebuild.Graph
