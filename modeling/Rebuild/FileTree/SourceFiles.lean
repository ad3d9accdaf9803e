import Rebuild.FileTree.Workspace
import Rebuild.Glob.Selection
import Rebuild.Order.Sort

/-!
# Source files below a directory

The files below a directory are listed in the order of their relative paths, compared name by name.
A file is left out when a folder on the way to it, below the directory itself, has a skipped name,
and otherwise when its relative path is not selected.
-/

namespace Rebuild

/-- Which files of a directory to list; the patterns in `skipped` are for names of folders. -/
structure ScanRules where
  included : List Text
  excluded : List Text
  skipped : List Text
  deriving DecidableEq

namespace ScanRules

def defaultSkipped : List Text :=
  [".git", "node_modules", "__pycache__", ".venv", "venv", "lua_modules", ".luarocks"]

def skips (rules : ScanRules) (folder : Text) : Bool :=
  rules.skipped.any (Glob.isMatch folder)

/-- Whether the rules admit the file to which the names lead. -/
def admits (rules : ScanRules) (names : List Text) : Bool :=
  !names.dropLast.any rules.skips &&
    Glob.isSelected (Text.intercalate "/" names) rules.included rules.excluded

end ScanRules

namespace Workspace

/-- The folder that a tidied path leads to. -/
def folderAt? (ws : Workspace) (text : Text) : Option Folder :=
  match refusal? text, ws.locate (Path.tidy text) with
  | none, .ok (.folder _ inner) => some inner
  | _, _ => none

def sourceFiles (ws : Workspace) (directory : Text) (rules : ScanRules) : List Text :=
  match ws.folderAt? directory with
  | none => []
  | some folder =>
    let names := Order.sortBy Order.namesPrecede (folder.files.map (·.1))
    (names.filter rules.admits).map fun names => Path.join directory (Text.intercalate "/" names)

end Workspace

end Rebuild
