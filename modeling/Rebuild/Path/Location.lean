import Rebuild.Path.Basic

/-!
# Paths seen from a directory

A location is the list of names that lead from the root to the working directory.  Seen from there
every text names an absolute path, and two texts are compared by the names of these.  Here a
backslash is an ordinary character, as it is to the file system; only the relative path that comes
out at the end is canonical text again.
-/

namespace Rebuild

abbrev Location := List Text

namespace Location

def path (here : Location) : Path :=
  ⟨.single, here⟩

def text (here : Location) : Text :=
  here.path.render

def absolute (here : Location) (text : Text) : Path :=
  here.path ++ Path.parse text

end Location

namespace Path

/-- Containment goes by whole names.  A directory under two slashes contains nothing. -/
def contains (directory path : Path) : Bool :=
  directory.root == .single && directory.names.isPrefixOf path.names

/-- Two lists without the names with which both begin. -/
def dropShared : List Text → List Text → List Text × List Text
  | a :: as, b :: bs => if a = b then dropShared as bs else (a :: as, b :: bs)
  | as, bs => (as, bs)

/-- The way from a directory to a path: up out of what they do not share, then down. -/
def between (directory path : Path) : Path :=
  let (up, down) := dropShared directory.names path.names
  ⟨.relative, up.map (fun _ => (".." : Text)) ++ down⟩

end Path

namespace Location

def isInside (here : Location) (text directory : Text) : Bool :=
  (here.absolute directory).contains (here.absolute text)

def relativeTo (here : Location) (text directory : Text) : Text :=
  Path.canonical ((here.absolute directory).between (here.absolute text)).render

/-- An absolute text inside the working directory is written relative to it, any other text is
made canonical.  Only relative paths can become source files, so this is how an absolute spelling
of a project directory keeps its files in the project. -/
def projectRelative (here : Location) (text : Text) : Text :=
  if Path.isAbsolute text && here.isInside text here.text then here.relativeTo text here.text
  else Path.canonical text

end Location

end Rebuild
