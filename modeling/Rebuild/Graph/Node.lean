import Rebuild.Order.PathSet
import Rebuild.Text.Quoted

/-!
# Nodes of the dependency graph

A node stands for one source file.  Its dependents are the files that require it, directly or
through others; its mark is what the current build has to do with it.
-/

namespace Rebuild

/-- What a build does with a file: nothing, check its types again, or compile it. -/
inductive Mark where
  | unset
  | typecheck
  | compile
  deriving DecidableEq

def Mark.name : Mark → Text
  | .unset => "UNSET"
  | .typecheck => "TYPECHECK"
  | .compile => "COMPILE"

/-- Module references as they are written in `requires`, and the paths of those that could be
resolved, each reference once, in `modules`. -/
structure Node where
  input : Text
  output : Option Text
  requires : List Text
  modules : List (Text × Text)
  dependents : PathSet
  mark : Mark
  deriving DecidableEq

namespace Node

def ofRequires (input : Text) (requires : List Text) : Node :=
  { input, output := none, requires, modules := [], dependents := ∅, mark := .unset }

def unresolved (node : Node) : List Text :=
  node.requires.filter fun reference => !(node.modules.any fun pair => pair.1 == reference)

/-- Gives a reference a path, in the place of an earlier one if there is one. -/
def putModule (reference path : Text) : List (Text × Text) → List (Text × Text)
  | [] => [(reference, path)]
  | pair :: rest =>
    if pair.1 = reference then (reference, path) :: rest
    else pair :: putModule reference path rest

def withModule (node : Node) (reference path : Text) : Node :=
  { node with modules := putModule reference path node.modules }

def withDependents (node : Node) (paths : PathSet) : Node :=
  { node with dependents := node.dependents ∪ paths }

def text (node : Node) : Text :=
  "Node(" ++ Text.quoted node.input ++ ", mark=" ++ node.mark.name ++ ")"

end Node

end Rebuild
