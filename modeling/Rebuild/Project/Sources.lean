import Rebuild.Failure
import Rebuild.Graph.Insert
import Rebuild.Log
import Rebuild.Lookup.Resolve
import Rebuild.Require.Reference

/-!
# Sources in a workspace

In a workspace the references of a file are read from its text, and modules are searched in the
search directories.  A file that cannot be read or has an open comment or string is rejected, which
leaves it out of the graph; other failures end the insertion.

All references of a search stand in the texts of files, each takes up at least one byte, and each
leads to one path only, so the number of bytes in the workspace bounds the depth of the search.
-/

namespace Rebuild.Workspace

def scan (ws : Workspace) (path : Text) : Scanned Failure :=
  match ws.readText path with
  | .error (.access (.fault what path)) => .rejected (what.message path)
  | .error (.access refused) => .failed (.access refused)
  | .error (.undecodable error) => .rejected error.message
  | .ok text =>
    match Require.references text with
    | .ok references => .refs (references.map Text.ofString)
    | .error (.unclosed what) => .rejected what.message
    | .error (.noSuchLiteral number) => .failed (.noSuchLiteral number)
    | .error (.longNumber digits) => .failed (.longNumber digits)

/-- The references of a file, for a caller who wants to know why there are none. -/
def references (ws : Workspace) (path : Text) : Except Failure (List Text) :=
  match ws.scan path with
  | .refs references => .ok references
  | .rejected reason => .error (.unparsable path reason)
  | .failed failure => .error failure

def sources (ws : Workspace) (dirs : SearchDirs) : Sources Unit Failure where
  requires path _ := (ws.scan path, ())
  resolve reference _ := (ws.resolve dirs reference true, ())

def searchDepth (ws : Workspace) : Nat :=
  ws.root.byteCount + 2

def insertFile (ws : Workspace) (dirs : SearchDirs) (scope : Option Text) (graph : Graph)
    (file : Text) : Insertion Unit Failure :=
  graph.insert (ws.sources dirs) ws.location scope ws.searchDepth file ()

end Rebuild.Workspace
