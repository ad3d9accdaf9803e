import Rebuild.Failure
import Rebuild.Graph.Basic

/-!
# Stale files

A file with an output is stale when the output is older than the file or the two times cannot be
compared.  A declaration file has no output of its own; it is stale when the output of some file
that depends on it is older.  An output that is not there does not count here, since the file it
belongs to is stale itself.  A path that is refused outright is another matter: no time can be asked
for, and the question fails.
-/

namespace Rebuild.Workspace

/-- Whether some of the paths names a node with an output older than the given time. -/
def anyOutputBefore (ws : Workspace) (graph : Graph) (time : Timestamp) :
    List Text → Except Failure Bool
  | [] => .ok false
  | path :: rest =>
    match (graph.find? path).bind Node.output with
    | none => ws.anyOutputBefore graph time rest
    | some output =>
      match ws.modified output with
      | .error (.fault _ _) => ws.anyOutputBefore graph time rest
      | .error refused => .error (.access refused)
      | .ok built => if built.isBefore time then .ok true else ws.anyOutputBefore graph time rest

/-- Whether an output is older than its source. -/
def outputBefore (ws : Workspace) (output source : Text) : Except Failure Bool :=
  match ws.modified output with
  | .error (.fault _ _) => .ok true
  | .error refused => .error (.access refused)
  | .ok built =>
    match ws.modified source with
    | .error (.fault _ _) => .ok true
    | .error refused => .error (.access refused)
    | .ok changed => .ok (built.isBefore changed)

/-- Whether the file of a node has to be compiled; without a graph a declaration file never
has. -/
def needsCompile (ws : Workspace) (graph : Option Graph) (node : Node) : Except Failure Bool :=
  match node.output, graph with
  | some output, _ => ws.outputBefore output node.input
  | none, none => .ok false
  | none, some graph =>
    match ws.modified node.input with
    | .error error => .error (.access error)
    | .ok changed => ws.anyOutputBefore graph changed node.dependents.toList

end Rebuild.Workspace
