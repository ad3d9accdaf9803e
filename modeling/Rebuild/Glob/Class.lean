import Rebuild.Text.CodePoint

/-!
# Character classes of a glob

The text between the brackets of a class is cut at the hyphens that stand between two characters;
the characters on both sides of such a hyphen span a range.  A hyphen next to the start, next to
the end, or within two characters after another range hyphen stands for itself.  A range whose ends
are in the wrong order is taken out together with its ends, before anything else is decided: only
then does a leading `!` negate the class, and a class of which nothing is left matches nothing.
-/

namespace Rebuild.Glob

inductive ClassItem where
  | char (c : CodePoint)
  | range (low high : CodePoint)
  deriving DecidableEq

structure CharClass where
  negated : Bool
  items : List ClassItem
  deriving DecidableEq

def ClassItem.accepts : ClassItem → CodePoint → Bool
  | .char c, d => c == d
  | .range low high, d => low ≤ d && d ≤ high

def CharClass.accepts (cls : CharClass) (c : CodePoint) : Bool :=
  (cls.items.any (·.accepts c)) != cls.negated

/-- The text of a class, given what follows its opening bracket.  A closing bracket in first place
stands for itself, and without a later one there is no class. -/
def classBody? (text : List CodePoint) : Option (List CodePoint) :=
  let (mark, text) : List CodePoint × List CodePoint := match text with
    | .char '!' :: rest => ([.char '!'], rest)
    | rest => ([], rest)
  let (first, text) : List CodePoint × List CodePoint := match text with
    | .char ']' :: rest => ([.char ']'], rest)
    | rest => ([], rest)
  match text.dropWhile (· != .char ']') with
  | .char ']' :: _ => some (mark ++ first ++ text.takeWhile (· != .char ']'))
  | _ => none

/-- The pieces between the range hyphens.  The next `held` characters are no range hyphens, and
`piece` holds the current piece with the last character first. -/
def piecesFrom : (held : Nat) → (piece : List CodePoint) → List CodePoint → List (List CodePoint)
  | _, piece, [] => [piece.reverse]
  | held + 1, piece, c :: rest => piecesFrom held (c :: piece) rest
  | 0, piece, c :: rest =>
    if c = '-' then piece.reverse :: piecesFrom 2 [] rest else piecesFrom 0 (c :: piece) rest

/-- A hyphen at the end belongs to the piece before it. -/
def closeLast : List (List CodePoint) → List (List CodePoint)
  | [] => []
  | [piece, []] => [piece ++ [.char '-']]
  | piece :: rest => piece :: closeLast rest

/-- Joins a piece to the pieces after it, without the range between them if its ends are in the
wrong order. -/
def joinPiece (piece : List CodePoint) : List (List CodePoint) → List (List CodePoint)
  | [] => [piece]
  | following :: rest =>
    match piece.getLast?, following.head? with
    | some low, some high =>
      if high < low then (piece.dropLast ++ following.tail) :: rest else piece :: following :: rest
    | _, _ => piece :: following :: rest

/-- A character of a class that stands for itself, or a hyphen that spans a range. -/
inductive Symbol where
  | char (c : CodePoint)
  | hyphen

def symbols (pieces : List (List CodePoint)) : List Symbol :=
  [Symbol.hyphen].intercalate (pieces.map (·.map Symbol.char))

def itemsOf : List Symbol → List ClassItem
  | [] => []
  | .char low :: .hyphen :: .char high :: rest => .range low high :: itemsOf rest
  | .char c :: rest => .char c :: itemsOf rest
  | .hyphen :: rest => .char '-' :: itemsOf rest

def CharClass.ofBody (body : List CodePoint) : CharClass :=
  let held := if body.head? = some (.char '!') then 2 else 1
  match symbols ((closeLast (piecesFrom held [] body)).foldr joinPiece []) with
  | .char (.char '!') :: rest => ⟨true, itemsOf rest⟩
  | all => ⟨false, itemsOf all⟩

end Rebuild.Glob
