import Rebuild.Graph.Closure
import Rebuild.Path.Extension
import Rebuild.Path.Location

/-!
# Inserting files

Inserting a file adds a node for it and for every file it requires, directly or through others,
and closes the dependents.  What a file requires and where a module is found is asked of the
sources; their answers may change from one question to the next, which is what the state `σ`
stands for, and a question about a file may fail with an error of type `ε`.

A path becomes a node unless it is absolute, is a node already, does not have the extension of a
source file, or is rejected by the sources.  With a scope, modules outside the scope are recorded
but not inserted, and modules inside it are recorded under the scope.

A file is a node before its modules are followed, so every question about a file is asked once and
the depth of the search is bounded by the number of files the sources accept.  A search that goes
deeper than it is allowed to stops, as does one that meets an error; the nodes added until then
stay in the graph.
-/

namespace Rebuild

/-- An answer to what a file requires. -/
inductive Scanned (ε : Type) where
  | refs (references : List Text)
  | rejected (reason : Text)
  | failed (error : ε)

structure Sources (σ ε : Type) where
  requires : Text → σ → Scanned ε × σ
  resolve : Text → σ → Option Text × σ

inductive InsertEvent where
  | absolutePath (path : Text)
  | rejected (path reason : Text)
  | unresolved (path reference : Text)
  | circular (paths : List Text)
  deriving DecidableEq

/-- Why an insertion ends early. -/
inductive Stop (ε : Type) where
  | failed (error : ε)
  | tooDeep

/-- An insertion under way. -/
structure Insertion (σ ε : Type) where
  graph : Graph
  state : σ
  events : List InsertEvent
  stop : Option (Stop ε)

namespace Insertion

variable {σ ε : Type}

def start (graph : Graph) (state : σ) : Insertion σ ε :=
  ⟨graph, state, [], none⟩

def note (run : Insertion σ ε) (event : InsertEvent) : Insertion σ ε :=
  { run with events := run.events ++ [event] }

/-- The path recorded for a module found at `found`, and whether it is inserted in turn. -/
def target (here : Location) (scope : Option Text) (found : Text) : Text × Bool :=
  match scope with
  | none => (Path.canonical found, true)
  | some directory =>
    if here.isInside found directory then
      (Path.join directory (here.relativeTo found directory), true)
    else (Path.canonical found, false)

/-- Follows one reference of the node at `path`, with `visit` for the file it leads to. -/
def follow (sources : Sources σ ε) (here : Location) (scope : Option Text) (path : Text)
    (visit : Text → Insertion σ ε → Insertion σ ε) (run : Insertion σ ε) (reference : Text) :
    Insertion σ ε :=
  if run.stop.isSome then run
  else match sources.resolve reference run.state with
    | (none, state) => { run with state }.note (.unresolved path reference)
    | (some found, state) =>
      let (recorded, inserted) := target here scope found
      let run := { run with state, graph := run.graph.recordModule path reference recorded }
      if inserted then visit recorded run else run

def visit (sources : Sources σ ε) (here : Location) (scope : Option Text) :
    (depth : Nat) → Text → Insertion σ ε → Insertion σ ε
  | 0, _, run => { run with stop := some .tooDeep }
  | depth + 1, text, run =>
    let path := Path.canonical text
    if Path.isAbsolute text then run.note (.absolutePath text)
    else if run.graph.has path then run
    else if Path.extension path ≠ Path.sourceExtension then run
    else match sources.requires path run.state with
      | (.failed error, state) => { run with state, stop := some (.failed error) }
      | (.rejected reason, state) => { run with state }.note (.rejected path reason)
      | (.refs references, state) =>
        references.foldl (follow sources here scope path (visit sources here scope depth))
          { run with state, graph := run.graph.add (.ofRequires path references) }

/-- Closes the dependents of the graph once all files are in. -/
def finish (run : Insertion σ ε) : Insertion σ ε :=
  if run.stop.isSome then run
  else
    let run := { run with graph := run.graph.close }
    if run.graph.cycles.isEmpty then run else run.note (.circular run.graph.cycles)

/-- The outcome: the paths on cycles, none when the insertion is good. -/
def verdict (run : Insertion σ ε) : Except (Stop ε) (List Text) :=
  match run.stop with
  | some stop => .error stop
  | none => .ok run.graph.cycles

end Insertion

/-- Inserts a file and everything it requires. -/
def Graph.insert {σ ε : Type} (graph : Graph) (sources : Sources σ ε) (here : Location)
    (scope : Option Text) (depth : Nat) (text : Text) (state : σ) : Insertion σ ε :=
  (Insertion.visit sources here scope depth text (.start graph state)).finish

end Rebuild
