import Rebuild.Glob.Pattern

/-!
# Selecting paths by patterns

A pattern that begins with `**/` may also match without it, so that it reaches the files at the top
of a directory as well as those below.
-/

namespace Rebuild.Glob

/-- A pattern, and what remains of it each time a leading `**/` is taken off. -/
def shortenings : List CodePoint → List (List CodePoint)
  | .char '*' :: .char '*' :: .char '/' :: rest =>
    (.char '*' :: .char '*' :: .char '/' :: rest) :: shortenings rest
  | pattern => [pattern]

def covers (path pattern : Text) : Bool :=
  (shortenings pattern.toList).any fun shortened => isMatch path (Text.ofList shortened)

def coversAny (path : Text) (patterns : List Text) : Bool :=
  patterns.any (covers path)

/-- Exclusion wins over inclusion, and an empty list of patterns to include stands for all. -/
def isSelected (path : Text) (included excluded : List Text) : Bool :=
  !coversAny path excluded && (included.isEmpty || coversAny path included)

end Rebuild.Glob
