import Rebuild.FileTree.Workspace
import Rebuild.Lookup.Candidates

/-!
# Resolving modules in a workspace

A module resolves to the first of its candidates that is a file.
-/

namespace Rebuild.Workspace

def resolve (ws : Workspace) (dirs : SearchDirs) (reference : Text) (preferSource : Bool) :
    Option Text :=
  if SearchDirs.isMalformed reference then none
  else (dirs.candidates reference preferSource).find? ws.isFile

end Rebuild.Workspace
