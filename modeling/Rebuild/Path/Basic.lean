import Rebuild.Text.Basic

/-!
# Paths

A path text is read as a root and a list of names.  Reading it drops empty names and `.`, and lets
every `..` cancel the name before it; a `..` with nothing to cancel is kept in a relative path and
dropped at a root.  Two texts are spellings of one path exactly when they read as the same value,
and writing that value gives their common canonical text.
-/

namespace Rebuild

/-- How a path text begins.  Two leading slashes are a root of their own, three or more mean the
same as one. -/
inductive Root where
  | relative
  | single
  | double
  deriving DecidableEq

namespace Root

def ofChars : List CodePoint → Root
  | .char '/' :: .char '/' :: .char '/' :: _ => .single
  | .char '/' :: .char '/' :: _ => .double
  | .char '/' :: _ => .single
  | _ => .relative

def text : Root → Text
  | .relative => ""
  | .single => "/"
  | .double => "//"

/-- Adds a name to the names read so far, which are kept with the last one first. -/
def push (root : Root) (stack : List Text) (name : Text) : List Text :=
  if name = "" ∨ name = "." then stack
  else if name ≠ ".." then name :: stack
  else match stack with
    | [] => if root = .relative then [".."] else []
    | top :: below => if top = ".." then ".." :: top :: below else below

def reduce (root : Root) (names : List Text) : List Text :=
  (names.foldl root.push []).reverse

end Root

/-- A path with its names already reduced. -/
structure Path where
  root : Root
  names : List Text
  deriving DecidableEq

namespace Path

/-- The names between the slashes of a text, empty ones included. -/
def segments (text : Text) : List Text :=
  (text.toList.splitOn (.char '/')).map Text.ofList

/-- Reads a text in which only the slash separates names. -/
def parse (text : Text) : Path :=
  let root := Root.ofChars text.toList
  ⟨root, root.reduce (segments text)⟩

def render (path : Path) : Text :=
  if path.root = .relative ∧ path.names = [] then "."
  else path.root.text ++ Text.intercalate "/" path.names

/-- Follows `second` from `first`; a rooted `second` starts afresh. -/
def append (first second : Path) : Path :=
  if second.root = .relative then
    ⟨first.root, first.root.reduce (first.names ++ second.names)⟩
  else second

instance : Append Path := ⟨append⟩

/-- Backslashes separate names as well: they count as slashes. -/
def slashed (text : Text) : Text :=
  text.map fun c => if c = .char '\\' then .char '/' else c

def ofText (text : Text) : Path :=
  parse (slashed text)

def canonical (text : Text) : Text :=
  (ofText text).render

def join (first second : Text) : Text :=
  (ofText first ++ ofText second).render

def joinAll (texts : List Text) : Text :=
  ((texts.map ofText).foldl append ⟨.relative, []⟩).render

/-- A leading slash or backslash makes a text absolute. -/
def isAbsolute (text : Text) : Bool :=
  match text.toList with
  | c :: _ => c == .char '/' || c == .char '\\'
  | [] => false

end Path

end Rebuild
