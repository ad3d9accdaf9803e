import Rebuild.CommandLine.Console
import Rebuild.Config.Load
import Rebuild.Json.Writer
import Rebuild.Project.Plan

/-!
# The commands

Every command loads the configuration and builds the graph of the project.  `graph` shows it,
`check` lists what could not be resolved, and `plan` shows what a build has to do.

A dependent count of more digits than a number may have cannot be shown, which ends `graph` there.
-/

namespace Rebuild.CommandLine

open Text (styled)

def logLines (level : Level) (log : List LogEntry) : List Line :=
  (log.filter fun entry => level.rank ≤ entry.level.rank).map .log

/-- What a failure of the project, or one that nothing expects, does to a command. -/
def failureResponse (failure : Failure) : Response :=
  match failure with
  | .circular paths =>
    .failed
      (.err (styled .red "Circular dependency between:") ::
        paths.map fun path => .err ("  " ++ path))
      "Circular dependency detected"
  | failure =>
    if failure.isOfProject then .failed [] failure.message else .crashed [] failure

/-- Goes on with a logged value, or ends with its failure. -/
def withLogged {α : Type} (level : Level) (logged : Logged (Except Failure α))
    (next : α → Response) : Response :=
  .after (logLines level logged.log) (match logged.value with
    | .ok value => next value
    | .error failure => failureResponse failure)

def sortedModules (node : Node) : List (Text × Text) :=
  Order.sortBy (fun first second => decide (first.1 ≤ second.1)) node.modules

/-- A node of the graph as JSON, with its dependent count. -/
def nodeJson (counts : Graph.Counts) (node : Node) : Json :=
  .object
    [("input", .string node.input),
      ("output", match node.output with
        | some output => .string output
        | none => .null),
      ("dependent_count", .number (toString (Graph.countIn counts node.input))),
      ("dependents", .array (node.dependents.toList.map .string)),
      ("modules", .object ((sortedModules node).map fun (reference, path) =>
        (reference, .string path))),
      ("unresolved", .array (node.unresolved.map .string))]

def graphJson (graph : Graph) : Json :=
  .object
    [("version", .string "1.0"),
      ("total_nodes", .number (toString graph.ordered.length)),
      ("nodes", .array (graph.ordered.map (nodeJson graph.dependentCounts)))]

def isLong (counts : Graph.Counts) (node : Node) : Bool :=
  Json.maxDigits < (toString (Graph.countIn counts node.input)).length

def nodeLines (counts : Graph.Counts) (node : Node) : List Line :=
  let count := styled .yellow (toString (Graph.countIn counts node.input))
  .out (Text.padLeft 14 count ++ "  " ++ styled .cyan node.input) ::
    (sortedModules node).map (fun (reference, path) =>
      .out ("      " ++ reference ++ " -> " ++ path)) ++
    node.unresolved.map fun reference =>
      .out (styled .dim ("      " ++ reference ++ " -> (not found)"))

/-- The lines of the nodes before the first one whose count is too long. -/
def showNodes (counts : Graph.Counts) : List Node → Response
  | [] => .success []
  | node :: rest =>
    if isLong counts node then .crashed [] .longCount
    else .after (nodeLines counts node) (showNodes counts rest)

def showGraph (json : Bool) (graph : Graph) : Response :=
  if json then
    if graph.ordered.any (isLong graph.dependentCounts) then .crashed [] .longCount
    else .success [.out (graphJson graph).write]
  else if graph.nodes.isEmpty then .success [.out "No source files found."]
  else showNodes graph.dependentCounts graph.ordered

def warnings (node : Node) : List Line :=
  node.unresolved.map fun reference =>
    .out (styled .yellow
      ("warning: " ++ node.input ++ ": module '" ++ reference ++ "' not found"))

def checkGraph (graph : Graph) : Response :=
  let lines := graph.ordered.flatMap warnings
  .success (lines ++
    [.out (s!"{graph.size} file(s), no circular dependencies, " ++
      s!"{lines.length} unresolved module(s)")])

def planLine (node : Node) : Line :=
  match node.output with
  | some output => if output = "" then .out ("  " ++ node.input)
    else .out ("  " ++ node.input ++ " -> " ++ output)
  | none => .out ("  " ++ node.input)

def planSection (style : Text.Style) (title : Text) (nodes : List Node) : List Line :=
  .out (styled style (title ++ s!" ({nodes.length}):")) :: nodes.map planLine

def showPlan (plan : Plan) : Response :=
  if plan.isEmpty then .success [.out "Everything is up to date."]
  else
    .success (planSection .green "Compile" plan.compile ++
      planSection .blue "Typecheck" plan.typecheck)

/-- The settings that stand before a command. -/
structure Settings where
  configPath : Text
  level : Level

def runGraph (ws : Workspace) (settings : Settings) (json : Bool) : Response :=
  withLogged settings.level (ws.loadConfig settings.configPath) fun config =>
    withLogged settings.level (ws.buildGraph config []) (showGraph json)

def runCheck (ws : Workspace) (settings : Settings) : Response :=
  withLogged settings.level (ws.loadConfig settings.configPath) fun config =>
    withLogged settings.level (ws.buildGraph config []) checkGraph

def runPlan (ws : Workspace) (settings : Settings) (files : List Text) (force : Bool) :
    Response :=
  withLogged settings.level (ws.loadConfig settings.configPath) fun config =>
    withLogged settings.level (ws.plan config files force) showPlan

end Rebuild.CommandLine
