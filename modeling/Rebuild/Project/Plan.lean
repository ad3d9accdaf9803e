import Rebuild.Graph.Marking
import Rebuild.Project.SourceGraph
import Rebuild.Project.Staleness

/-!
# The build plan

A plan lists the files to compile and the files to type-check, every file before those that require
it.  The files to compile are the changed ones: all files when the build is forced, else the named
files if any are named, else the stale ones.  The files to type-check are the others that depend on
a changed file.
-/

namespace Rebuild

/-- A plan, with the marked graph it comes from and the references that could not be resolved. -/
structure Plan where
  graph : Graph
  compile : List Node
  typecheck : List Node
  unresolved : List (Text × List Text)

namespace Plan

def ofMarked (graph : Graph) : Plan where
  graph := graph
  compile := graph.marked .compile
  typecheck := graph.marked .typecheck
  unresolved := (graph.nodes.filter fun node => !node.unresolved.isEmpty).map fun node =>
    (node.input, node.unresolved)

def isEmpty (plan : Plan) : Bool :=
  plan.compile.isEmpty && plan.typecheck.isEmpty

end Plan

namespace Workspace

/-- Whether a file of the graph has changed, given the files that are named as changed. -/
def isChanged (ws : Workspace) (graph : Graph) (named : PathSet) (force : Bool) (path : Text) :
    Except Failure Bool :=
  if force then .ok true
  else if named.toList.isEmpty then
    match graph.find? path with
    | some node => ws.needsCompile (some graph) node
    | none => .ok false
  else .ok (decide (path ∈ named))

/-- The plan for a graph that is built. -/
def planGraph (ws : Workspace) (graph : Graph) (files : List Text) (force : Bool) :
    Except Failure Plan :=
  let named := PathSet.ofList (files.map ws.location.projectRelative)
  let unknown := named.toList.filter fun path => !graph.contains path
  if unknown.isEmpty then
    (graph.markEach (ws.isChanged graph named force)).map Plan.ofMarked
  else .error (.unknownFiles unknown)

def plan (ws : Workspace) (config : Config) (files : List Text) (force : Bool) :
    Logged (Except Failure Plan) :=
  let built := ws.buildGraph config []
  match built.value with
  | .error failure => ⟨built.log, .error failure⟩
  | .ok graph =>
    match ws.planGraph graph files force with
    | .error failure => ⟨built.log, .error failure⟩
    | .ok plan =>
      let done : LogEntry :=
        ⟨.info, LogEntry.plannerSource, s!"build plan: {plan.compile.length} to compile, " ++
          s!"{plan.typecheck.length} to typecheck"⟩
      ⟨built.log ++ [done], .ok plan⟩

end Workspace

end Rebuild
