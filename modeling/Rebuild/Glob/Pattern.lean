import Rebuild.Glob.Class
import Rebuild.Text.Basic

/-!
# Glob patterns

A pattern is a list of tokens and matches a text as a whole.  A star stands for any text, slashes
and line ends included.

Matching goes by a table with one entry for every suffix of the text, from the whole text down to
the empty one, that says whether the tokens match that suffix.  The table of a pattern comes from
the table of its tail, so the work is the product of the two lengths however many stars there are.
-/

namespace Rebuild.Glob

inductive Token where
  | star
  | any
  | char (c : CodePoint)
  | oneOf (cls : CharClass)
  deriving DecidableEq

/-- The tokens of a pattern of which the next `skipped` characters are already read. -/
def tokensFrom : (skipped : Nat) → List CodePoint → List Token
  | _, [] => []
  | skipped + 1, _ :: rest => tokensFrom skipped rest
  | 0, .char '*' :: rest => .star :: tokensFrom 0 rest
  | 0, .char '?' :: rest => .any :: tokensFrom 0 rest
  | 0, .char '[' :: rest =>
    match classBody? rest with
    | some body => .oneOf (.ofBody body) :: tokensFrom (body.length + 1) rest
    | none => .char '[' :: tokensFrom 0 rest
  | 0, c :: rest => .char c :: tokensFrom 0 rest

def tokens (pattern : Text) : List Token :=
  tokensFrom 0 pattern.toList

/-- Whether a token other than the star matches a character. -/
def Token.accepts : Token → CodePoint → Bool
  | .star, _ => false
  | .any, _ => true
  | .char c, d => c == d
  | .oneOf cls, c => cls.accepts c

/-- Whether some entry from a place on is true, for every place. -/
def anyFrom : List Bool → List Bool
  | [] => []
  | b :: rest => (b || rest.any id) :: anyFrom rest

def suffixTable : List Token → List CodePoint → List Bool
  | [], text => List.replicate text.length false ++ [true]
  | .star :: rest, text => anyFrom (suffixTable rest text)
  | token :: rest, text =>
    List.zipWith (fun c tail => token.accepts c && tail) text (suffixTable rest text).tail ++
      [false]

def matchesTokens (pattern : List Token) (text : List CodePoint) : Bool :=
  (suffixTable pattern text).headD false

def isMatch (text pattern : Text) : Bool :=
  matchesTokens (tokens pattern) text.toList

end Rebuild.Glob
