import Rebuild.Path.Basic

/-!
# Candidate files of a module

A module reference names a file below one of the search directories: its dots become slashes, and
a template adds the rest of the file name.  The candidates are ordered by directory first and by
template second.
-/

namespace Rebuild

/-- The directories in which modules are searched, in canonical form. -/
structure SearchDirs where
  directories : List Text
  deriving DecidableEq

namespace SearchDirs

/-- Without any directory the working directory is searched. -/
def ofList (directories : List Text) : SearchDirs :=
  ⟨(if directories.isEmpty then [(".": Text)] else directories).map Path.canonical⟩

def sourceTemplates : List Text := ["?.tl", "?.d.tl", "?/init.tl", "?/init.d.tl"]

def compiledTemplates : List Text := ["?.lua", "?/init.lua"]

def templates (preferSource : Bool) : List Text :=
  if preferSource then sourceTemplates ++ compiledTemplates
  else compiledTemplates ++ sourceTemplates

/-- The path of a module without its extension. -/
def stem (reference : Text) : Text :=
  reference.map fun c => if c = .char '.' then .char '/' else c

/-- A template with a text in the place of each question mark. -/
def fill (template stem : Text) : Text :=
  Text.ofList (template.toList.flatMap fun c => if c = .char '?' then stem.toList else [c])

def candidates (dirs : SearchDirs) (reference : Text) (preferSource : Bool) : List Text :=
  dirs.directories.flatMap fun directory =>
    (templates preferSource).map fun template =>
      Path.join directory (fill template (stem reference))

/-- A reference that is empty, or has a dot at either end, names no module. -/
def isMalformed (reference : Text) : Bool :=
  reference.toList.isEmpty || reference.toList.head? == some (.char '.') ||
    reference.toList.getLast? == some (.char '.')

end SearchDirs

end Rebuild
