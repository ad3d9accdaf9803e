import Rebuild.Project.SourceGraph
import Rebuild.Proofs.Graph.Cycles
import Rebuild.Proofs.Project.SearchDepth

/-!
# Scanning up to the first circle

A scan ends at the first file that closes a circle, and compares with the run that goes on to the
last file.  Insertions keep all cycles, so a circle that ends a scan is one of the full graph; and
when the full graph has a cycle, it has its first one after some file, which is where the scan ends.
-/

namespace Rebuild

namespace Workspace

/-- Inserts files one after the other, whether or not they close circles. -/
def insertEvery (ws : Workspace) (dirs : SearchDirs) (scope : Option Text) :
    Graph → List Text → Except (Stop Failure) Graph
  | graph, [] => .ok graph
  | graph, file :: rest =>
    let run := ws.insertFile dirs scope graph file
    match run.verdict with
    | .ok _ => ws.insertEvery dirs scope run.graph rest
    | .error stop => .error stop

variable {ws : Workspace} {dirs : SearchDirs} {scope : Option Text} {graph full : Graph}
  {file : Text} {files : List Text} {paths : List Text}

theorem insertEvery_cons
    (hverdict : (ws.insertFile dirs scope graph file).verdict = .ok paths) :
    ws.insertEvery dirs scope graph (file :: files) =
      ws.insertEvery dirs scope (ws.insertFile dirs scope graph file).graph files := by
  rw [insertEvery, hverdict]

theorem exists_verdict_of_insertEvery
    (hfull : ws.insertEvery dirs scope graph (file :: files) = .ok full) :
    ∃ paths, (ws.insertFile dirs scope graph file).verdict = .ok paths := by
  rw [insertEvery] at hfull
  split at hfull
  next paths hverdict => exact ⟨paths, hverdict⟩
  next => cases hfull

theorem onCycle_insertEvery (hfull : ws.insertEvery dirs scope graph files = .ok full)
    {path : Text} (hcycle : graph.OnCycle path) : full.OnCycle path := by
  induction files generalizing graph with
  | nil =>
      cases hfull
      exact hcycle
  | cons file rest ih =>
      obtain ⟨paths, hverdict⟩ := exists_verdict_of_insertEvery hfull
      rw [insertEvery_cons hverdict] at hfull
      exact ih hfull (Graph.transGen_insert hverdict hcycle)

theorem verdict_ne_tooDeep (ws : Workspace) (dirs : SearchDirs) (scope : Option Text)
    (graph : Graph) (file : Text) :
    (ws.insertFile dirs scope graph file).verdict ≠ .error .tooDeep := by
  intro hverdict
  exact ws.insertFile_stop_ne_tooDeep dirs scope graph file (Insertion.stop_of_verdict hverdict)

theorem insertEvery_ne_tooDeep (ws : Workspace) (dirs : SearchDirs) (scope : Option Text)
    (graph : Graph) (files : List Text) :
    ws.insertEvery dirs scope graph files ≠ .error .tooDeep := by
  induction files generalizing graph with
  | nil => exact fun hdeep => by cases hdeep
  | cons file rest ih =>
      rw [insertEvery]
      split
      next => exact ih _
      next stop hverdict =>
        intro hdeep
        cases hdeep
        exact ws.verdict_ne_tooDeep dirs scope graph file hverdict

inductive ScanOutcome (full : Graph) : Except Failure Graph → Prop
  | complete (hgood : ¬full.IsCircular) : ScanOutcome full (.ok full)
  | circular {paths : List Text} (hsome : paths ≠ [])
      (hcycles : ∀ path ∈ paths, full.OnCycle path) :
      ScanOutcome full (.error (.circular paths))

theorem ScanOutcome.exists_circular_iff {value : Except Failure Graph}
    (houtcome : ScanOutcome full value) :
    (∃ paths, value = .error (.circular paths)) ↔ full.IsCircular := by
  cases houtcome with
  | complete hgood =>
      refine ⟨?_, fun hcircular => (hgood hcircular).elim⟩
      rintro ⟨paths, hpaths⟩
      cases hpaths
  | @circular paths hsome hcycles =>
      obtain ⟨path, hpath⟩ := List.exists_mem_of_ne_nil paths hsome
      exact ⟨fun _ => ⟨path, hcycles path hpath⟩, fun _ => ⟨paths, rfl⟩⟩

theorem ScanOutcome.onCycle (houtcome : ScanOutcome full (.error (.circular paths))) :
    paths ≠ [] ∧ ∀ path ∈ paths, full.OnCycle path := by
  cases houtcome with
  | circular hsome hcycles => exact ⟨hsome, hcycles⟩

theorem ScanOutcome.eq_ok {value : Except Failure Graph} (houtcome : ScanOutcome full value)
    (hgood : ¬full.IsCircular) : value = .ok full := by
  cases houtcome with
  | complete => rfl
  | @circular paths hsome hcycles =>
      obtain ⟨path, hpath⟩ := List.exists_mem_of_ne_nil paths hsome
      exact (hgood ⟨path, hcycles path hpath⟩).elim

/-- From an exact graph without cycles, inserting up to the first circle finds one exactly when the
full run has one in the end. -/
theorem scanOutcome_insertAll (hexact : graph.Exact) (hgood : ¬graph.IsCircular)
    (hfull : ws.insertEvery dirs scope graph files = .ok full) :
    ScanOutcome full (ws.insertAll dirs scope graph files).value := by
  induction files generalizing graph with
  | nil =>
      cases hfull
      exact .complete hgood
  | cons file rest ih =>
      obtain ⟨paths, hverdict⟩ := exists_verdict_of_insertEvery hfull
      rw [insertEvery_cons hverdict] at hfull
      have hnext := hexact.insert hverdict
      have hpaths := Graph.cycles_insert hverdict
      rw [insertAll]
      cases paths with
      | nil =>
          rw [hverdict]
          exact ih hnext (hnext.cycles_eq_nil_iff.1 hpaths) hfull
      | cons first more =>
          -- the scan ends here; the full run goes on and keeps the cycles of this graph
          rw [hverdict]
          refine .circular (List.cons_ne_nil first more) fun path hpath => ?_
          rw [← hpaths] at hpath
          exact onCycle_insertEvery hfull (hnext.mem_cycles_iff.1 hpath)

theorem value_scanGraph (ws : Workspace) (dirs : SearchDirs) (directory : Text)
    (rules : ScanRules) :
    (ws.scanGraph dirs directory rules).value =
      (ws.insertAll dirs (some directory) .empty (ws.sourceFiles directory rules)).value := by
  unfold scanGraph
  dsimp only
  split
  next hvalue => rw [hvalue]
  next hvalue => rw [hvalue]

/-- After every insertion the reported paths are the nodes on cycles, in increasing order; and a
scan reports circular paths exactly when the graph of all its files, inserted without stopping, has
a cycle. -/
theorem circular_reports_exact :
    (∀ (graph : Graph) (σ ε : Type) (sources : Sources σ ε) (here : Location)
        (scope : Option Text) (depth : Nat) (text : Text) (state : σ)
        (paths : List Text), graph.Inserted →
        (graph.insert sources here scope depth text state).verdict = .ok paths →
          let after := (graph.insert sources here scope depth text state).graph
          (paths = [] ↔ ¬after.IsCircular) ∧ paths.Pairwise (· < ·) ∧
            ∀ path, path ∈ paths ↔ after.OnCycle path) ∧
      ∀ (ws : Workspace) (dirs : SearchDirs) (directory : Text) (rules : ScanRules),
        (∀ failure,
          ws.insertEvery dirs (some directory) .empty (ws.sourceFiles directory rules) ≠
            .error (.failed failure)) →
          ∃ full,
            ws.insertEvery dirs (some directory) .empty
              (ws.sourceFiles directory rules) = .ok full ∧
            ((∃ paths, (ws.scanGraph dirs directory rules).value = .error (.circular paths)) ↔
              full.IsCircular) ∧
            (∀ paths, (ws.scanGraph dirs directory rules).value = .error (.circular paths) →
              paths ≠ [] ∧ ∀ path ∈ paths, full.OnCycle path) ∧
            (¬full.IsCircular → (ws.scanGraph dirs directory rules).value = .ok full) := by
  constructor
  · intro graph σ ε sources here scope depth text state paths hgraph hverdict
    have hexact := hgraph.exact.insert hverdict
    dsimp only
    rw [← Graph.cycles_insert hverdict]
    exact ⟨hexact.cycles_eq_nil_iff, Graph.increasing_cycles _, fun path =>
      hexact.mem_cycles_iff⟩
  · intro ws dirs directory rules hnofailure
    cases hfull : ws.insertEvery dirs (some directory) .empty
        (ws.sourceFiles directory rules) with
    | error stop =>
        cases stop with
        | failed failure => exact (hnofailure failure hfull).elim
        | tooDeep => exact (ws.insertEvery_ne_tooDeep _ _ _ _ hfull).elim
    | ok full =>
        have houtcome :=
          scanOutcome_insertAll Graph.exact_empty Graph.not_isCircular_empty hfull
        rw [← value_scanGraph] at houtcome
        refine ⟨full, rfl, houtcome.exists_circular_iff, ?_, houtcome.eq_ok⟩
        intro paths hpaths
        rw [hpaths] at houtcome
        exact houtcome.onCycle

def textFile (text : String) : File :=
  ⟨text.toList.map fun c => UInt8.ofNat c.toNat, .ofSeconds 0 0⟩

/-- Two files that require each other. -/
def circularPair : Workspace where
  root :=
    .file "a.tl" (textFile "require[[b]]") (.file "b.tl" (textFile "require[[a]]") .empty)
  rootModified := .ofSeconds 0 0
  location := []

theorem insertEvery_circularPair_ne_failed (failure : Failure) :
    circularPair.insertEvery (.ofList []) (some ".") .empty
      (circularPair.sourceFiles "." Config.default.rules) ≠ .error (.failed failure) := by
  have hreturns :
      (circularPair.insertEvery (.ofList []) (some ".") .empty
        (circularPair.sourceFiles "." Config.default.rules)).toOption.isSome = true := by
    decide +kernel
  intro hfailed
  rw [hfailed] at hreturns
  cases hreturns

theorem circular_reports_exact_circularPair :
    (Graph.beforeRepair.Inserted ∧
        ∀ path, path ∈ Graph.repaired.cycles ↔ Graph.repaired.OnCycle path) ∧
      ∃ full,
        circularPair.insertEvery (.ofList []) (some ".") .empty
          (circularPair.sourceFiles "." Config.default.rules) = .ok full ∧
        ((∃ paths, (circularPair.scanGraph (.ofList []) "." Config.default.rules).value =
            .error (.circular paths)) ↔ full.IsCircular) := by
  constructor
  · have hcycles := circular_reports_exact.1 Graph.beforeRepair _ _
      Graph.tableAfterRepair.sources [] none 2 "b.tl" [] _ Graph.inserted_beforeRepair
      (Graph.verdict_insert Graph.stop_visit_repaired)
    exact ⟨Graph.inserted_beforeRepair, hcycles.2.2⟩
  · obtain ⟨full, hfull, hiff, _⟩ := circular_reports_exact.2 circularPair (.ofList []) "."
      Config.default.rules insertEvery_circularPair_ne_failed
    exact ⟨full, hfull, hiff⟩

end Workspace

end Rebuild
