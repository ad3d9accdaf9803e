import Rebuild.Proofs.Graph.Cycles
import Rebuild.Proofs.Path.LastName

/-!
# A line of files

Files of which each requires the one before it, inserted from the first one on.  Every file that
comes later is a dependent of a file, so the dependents of the first file are all others.
-/

namespace Rebuild.Graph

variable {place later size : Nat} {source target : Text}

def lineNames (place : Nat) : List Text :=
  List.replicate place ("a" : Text) ++ [("b.tl" : Text)]

/-- The path of a file of the line, in a folder for each file before it. -/
def lineFile (place : Nat) : Text :=
  (Path.down (lineNames place)).render

theorem isPlain_of_mem_lineNames : ∀ name ∈ lineNames place, Path.IsPlain name := by
  intro name hname
  rcases List.mem_append.1 hname with hname | hname
  · rw [List.eq_of_mem_replicate hname]
    decide
  · rw [List.mem_singleton.1 hname]
    decide

theorem canonical_lineFile (place : Nat) : Path.canonical (lineFile place) = lineFile place :=
  Path.canonical_render_down isPlain_of_mem_lineNames

theorem isAbsolute_lineFile (place : Nat) : Path.isAbsolute (lineFile place) = false :=
  Path.isAbsolute_render_down isPlain_of_mem_lineNames

theorem extension_lineFile (place : Nat) :
    Path.extension (lineFile place) = Path.sourceExtension := by
  have hnames : (Path.ofText (lineFile place)).names =
      List.replicate place ("a" : Text) ++ [("b.tl" : Text)] := by
    rw [lineFile, Path.ofText_render_down isPlain_of_mem_lineNames]
    rfl
  rw [← canonical_lineFile, Path.extension_canonical_of_names hnames]
  decide

theorem lineFile_injective : Function.Injective lineFile := by
  intro first second heq
  have hpaths := congrArg Path.ofText heq
  rw [lineFile, lineFile, Path.ofText_render_down isPlain_of_mem_lineNames,
    Path.ofText_render_down isPlain_of_mem_lineNames] at hpaths
  have hlengths := congrArg (fun path => path.names.length) hpaths
  simpa [Path.down, lineNames] using hlengths

/-- What a file of the line requires. -/
def lineModules : (place : Nat) → List Text
  | 0 => []
  | place + 1 => [lineFile place]

/-- Every file requires the given files under their paths. -/
def lineSources (modules : List Text) : Sources Unit Empty where
  requires _ state := (.refs modules, state)
  resolve reference state := (some reference, state)

/-- The first files of the line, inserted one after the other. -/
def line : (size : Nat) → Graph
  | 0 => .empty
  | size + 1 =>
    ((line size).insert (lineSources (lineModules size)) [] none 2 (lineFile size) ()).graph

def lineNode (place : Nat) : Node :=
  ⟨lineFile place, none, lineModules place, (lineModules place).map fun path => (path, path), ∅,
    .unset⟩

theorem visit_of_known {modules : List Text} {run : Insertion Unit Empty}
    (hknown : lineFile place ∈ run.graph.inputs) :
    Insertion.visit (lineSources modules) [] none 1 (lineFile place) run = run := by
  rw [Insertion.visit, isAbsolute_lineFile, if_neg Bool.false_ne_true, canonical_lineFile,
    if_pos (has_eq_true_iff.2 hknown)]

theorem follow_line {visit : Text → Insertion Unit Empty → Insertion Unit Empty}
    {modules : List Text} {run : Insertion Unit Empty} (hstop : run.stop = none)
    (hvisit : ∀ run : Insertion Unit Empty, lineFile place ∈ run.graph.inputs →
      visit (lineFile place) run = run) (hknown : lineFile place ∈ run.graph.inputs) :
    Insertion.follow (lineSources modules) [] none source visit run (lineFile place) =
      { run with graph := run.graph.recordModule source (lineFile place) (lineFile place) } := by
  rw [Insertion.follow, hstop]
  dsimp only [lineSources, Insertion.target]
  rw [canonical_lineFile]
  exact hvisit _ (by rwa [inputs_recordModule])

/-- The next file of the line is added with its modules, which are in the graph. -/
theorem visit_line {graph : Graph} (hnew : lineFile size ∉ graph.inputs)
    (hknown : ∀ path ∈ lineModules size, path ∈ graph.inputs) :
    let run := Insertion.visit (lineSources (lineModules size)) [] none 2 (lineFile size)
      (.start graph ())
    run.stop = none ∧ run.graph.nodes = graph.nodes ++ [lineNode size] := by
  intro run
  have hhas : ¬graph.has (lineFile size) = true := fun hhas => hnew (has_eq_true_iff.1 hhas)
  have hrun : run = (lineModules size).foldl
      (Insertion.follow (lineSources (lineModules size)) [] none (lineFile size)
        (Insertion.visit (lineSources (lineModules size)) [] none 1))
      ⟨graph.add (.ofRequires (lineFile size) (lineModules size)), (), [], none⟩ := by
    simp only [run]
    rw [Insertion.visit, isAbsolute_lineFile, if_neg Bool.false_ne_true, canonical_lineFile]
    rw [if_neg (show ¬(Insertion.start graph ()).graph.has _ = true from hhas),
      if_neg (not_not.2 (extension_lineFile size))]
    rfl
  cases size with
  | zero =>
      rw [hrun]
      exact ⟨rfl, nodes_add hnew⟩
  | succ place =>
      rw [hrun, lineModules, List.foldl_cons, List.foldl_nil, follow_line rfl]
      · refine ⟨rfl, ?_⟩
        -- the module is recorded at the new node, which no other node shares its path with
        have hothers : ∀ node ∈ graph.nodes,
            (if node.input = lineFile (place + 1)
              then node.withModule (lineFile place) (lineFile place) else node) = node := by
          intro node hnode
          refine if_neg fun heq => hnew ?_
          rw [← heq]
          exact input_mem_inputs hnode
        rw [nodes_recordModule, nodes_add hnew, List.map_append, List.map_congr_left hothers,
          List.map_id']
        simp [Node.ofRequires, lineNode, lineModules, Node.withModule, Node.putModule]
      · intro run hmem
        exact visit_of_known hmem
      · rw [inputs_add hnew]
        exact List.mem_append_left _ (hknown _ List.mem_cons_self)

theorem inputs_of_frame {graph : Graph} (hframe : graph.frame = (List.range size).map lineNode) :
    graph.inputs = (List.range size).map lineFile := by
  rw [inputs_eq_map_frame, hframe, List.map_map]
  rfl

theorem mem_inputs_of_frame {graph : Graph}
    (hframe : graph.frame = (List.range size).map lineNode) :
    lineFile place ∈ graph.inputs ↔ place < size := by
  rw [inputs_of_frame hframe, List.mem_map_of_injective lineFile_injective, List.mem_range]

theorem line_inserted (size : Nat) :
    (line size).Inserted ∧ (line size).frame = (List.range size).map lineNode := by
  induction size with
  | zero => exact ⟨.empty, rfl⟩
  | succ size ih =>
      obtain ⟨hinserted, hframe⟩ := ih
      have hnew : lineFile size ∉ (line size).inputs := by
        rw [mem_inputs_of_frame hframe]
        exact lt_irrefl size
      have hknown : ∀ path ∈ lineModules size, path ∈ (line size).inputs := by
        cases size with
        | zero => nofun
        | succ place =>
            intro path hpath
            rw [List.mem_singleton.1 hpath, mem_inputs_of_frame hframe]
            exact Nat.lt_succ_self place
      obtain ⟨hstop, hnodes⟩ := visit_line hnew hknown
      constructor
      · exact hinserted.insert _ _ _ _ _ _ (verdict_insert hstop)
      · rw [line, insert, Insertion.graph_finish hstop, frame_close, frame, hnodes, List.map_append,
          List.range_succ, List.map_append, ← hframe]
        rfl

/-! ## Dependents in the line -/

theorem edge_line_iff :
    (line size).Edge source target ↔
      ∃ place, place + 1 < size ∧ source = lineFile (place + 1) ∧ target = lineFile place := by
  have hframe := (line_inserted size).2
  rw [edge_iff_mem_edges, edges_eq_flatMap_frame, hframe]
  simp only [List.flatMap_map, List.mem_flatMap, List.mem_range, List.mem_map]
  constructor
  · rintro ⟨⟨later, hlater, pair, hpair, heq⟩, -⟩
    obtain ⟨rfl, rfl⟩ := Prod.mk.inj heq
    obtain ⟨path, hpath, rfl⟩ := List.mem_map.1 hpair
    cases later with
    | zero => cases hpath
    | succ place => exact ⟨place, hlater, rfl, List.mem_singleton.1 hpath⟩
  · rintro ⟨place, hplace, rfl, rfl⟩
    refine ⟨⟨place + 1, hplace, _, List.mem_cons_self, rfl⟩, ?_⟩
    rw [mem_inputs_of_frame hframe]
    omega

theorem transGen_line_iff :
    Relation.TransGen (line size).Edge source target ↔
      ∃ place later, place < later ∧ later < size ∧ source = lineFile later ∧
        target = lineFile place := by
  constructor
  · intro hpath
    induction hpath with
    | single hedge =>
        obtain ⟨place, hplace, rfl, rfl⟩ := edge_line_iff.1 hedge
        exact ⟨place, place + 1, Nat.lt_succ_self place, hplace, rfl, rfl⟩
    | tail _ hedge ih =>
        obtain ⟨middle, later, hmiddle, hlater, rfl, rfl⟩ := ih
        obtain ⟨place, -, heq, rfl⟩ := edge_line_iff.1 hedge
        have hplace := lineFile_injective heq
        exact ⟨place, later, by omega, hlater, rfl, rfl⟩
  · rintro ⟨place, later, hplace, hlater, rfl, rfl⟩
    induction later, hplace using Nat.le_induction with
    | base => exact .single (edge_line_iff.2 ⟨place, hlater, rfl, rfl⟩)
    | succ later _ ih =>
        exact .head (edge_line_iff.2 ⟨later, hlater, rfl, rfl⟩) (ih (Nat.lt_of_succ_lt hlater))

theorem not_isCircular_line (size : Nat) : ¬(line size).IsCircular := by
  rintro ⟨path, hcycle⟩
  obtain ⟨place, later, hplace, -, rfl, heq⟩ := transGen_line_iff.1 hcycle
  exact hplace.ne' (lineFile_injective heq)

theorem mem_dependentsAt_line {dependent : Text} :
    dependent ∈ (line size).dependentsAt (lineFile place) ↔
      ∃ later, place < later ∧ later < size ∧ dependent = lineFile later := by
  rw [(line_inserted size).1.exact, transGen_line_iff]
  constructor
  · rintro ⟨other, later, hother, hlater, hdependent, heq⟩
    obtain rfl := lineFile_injective heq
    exact ⟨later, hother, hlater, hdependent⟩
  · rintro ⟨later, hplace, hlater, hdependent⟩
    exact ⟨place, later, hplace, hlater, hdependent, rfl⟩

theorem size_dependentsAt_line (size : Nat) :
    ((line (size + 1)).dependentsAt (lineFile 0)).size = size := by
  have hperm : ((line (size + 1)).dependentsAt (lineFile 0)).toList.Perm
      ((List.range size).map fun place => lineFile (place + 1)) := by
    rw [List.perm_ext_iff_of_nodup (PathSet.nodup_toList _)]
    · intro dependent
      rw [← PathSet.mem_def, mem_dependentsAt_line, List.mem_map]
      constructor
      · rintro ⟨later, hlater, hsize, rfl⟩
        obtain ⟨place, rfl⟩ := Nat.exists_eq_succ_of_ne_zero hlater.ne'
        exact ⟨place, List.mem_range.2 (Nat.lt_of_succ_lt_succ hsize), rfl⟩
      · rintro ⟨place, hplace, rfl⟩
        exact ⟨place + 1, Nat.succ_pos place, Nat.succ_lt_succ (List.mem_range.1 hplace), rfl⟩
    · exact List.nodup_range.map fun first second heq =>
        Nat.succ_injective (lineFile_injective heq)
  rw [PathSet.size, hperm.length_eq, List.length_map, List.length_range]

/-- The dependents of a file of the line are comparable. -/
theorem comparable_line {first second : Text}
    (hfirst : first ∈ (line size).dependentsAt (lineFile place))
    (hsecond : second ∈ (line size).dependentsAt (lineFile place)) (hne : first ≠ second) :
    first ∈ (line size).dependentsAt second ∨ second ∈ (line size).dependentsAt first := by
  obtain ⟨later, -, hlater, rfl⟩ := mem_dependentsAt_line.1 hfirst
  obtain ⟨other, -, hother, rfl⟩ := mem_dependentsAt_line.1 hsecond
  rcases Nat.lt_or_gt_of_ne fun heq => hne (congrArg lineFile heq) with hlt | hlt
  · exact .inr (mem_dependentsAt_line.2 ⟨other, hlt, hother, rfl⟩)
  · exact .inl (mem_dependentsAt_line.2 ⟨later, hlt, hlater, rfl⟩)

end Rebuild.Graph
