import Rebuild.Text.Basic

/-!
# Styled text

Terminals show text in a style that is set by an escape sequence before it and reset by another
after it.  A control sequence is the escape character and an opening bracket, any parameters, any
intermediate characters, and one final character.  The three classes are neighbouring ranges of
ASCII that share no character, so a sequence ends in one way only.
-/

namespace Rebuild.Text

inductive Style where
  | red
  | green
  | yellow
  | blue
  | cyan
  | dim

def Style.code : Style → String
  | .red => "31"
  | .green => "32"
  | .yellow => "33"
  | .blue => "34"
  | .cyan => "36"
  | .dim => "2"

def styled (style : Style) (text : Text) : Text :=
  "\x1b[" ++ style.code ++ "m" ++ text ++ "\x1b[0m"

/-- Digits, the separators `:` and `;`, and the signs `<`, `=`, `>` and `?`. -/
def isParameter (c : CodePoint) : Bool :=
  '0' ≤ c && c ≤ '?'

/-- The blank and the signs that stand before the digits. -/
def isIntermediate (c : CodePoint) : Bool :=
  ' ' ≤ c && c ≤ '/'

/-- Letters and the signs around them. -/
def isFinal (c : CodePoint) : Bool :=
  '@' ≤ c && c ≤ '~'

/-- The length of the control sequence that follows an escape character, if one does. -/
def sequenceLength? : List CodePoint → Option Nat
  | .char '[' :: rest =>
    let parameters := rest.takeWhile isParameter
    let intermediates := (rest.drop parameters.length).takeWhile isIntermediate
    match rest.drop (parameters.length + intermediates.length) with
    | c :: _ => if isFinal c then some (parameters.length + intermediates.length + 2) else none
    | [] => none
  | _ => none

/-- A text without its control sequences; the next `skipped` characters belong to one. -/
def unstyledFrom : (skipped : Nat) → List CodePoint → List CodePoint
  | _, [] => []
  | skipped + 1, _ :: rest => unstyledFrom skipped rest
  | 0, c :: rest =>
    match (if c = '\x1b' then sequenceLength? rest else none) with
    | some length => unstyledFrom length rest
    | none => c :: unstyledFrom 0 rest

def unstyled (text : Text) : Text :=
  ⟨unstyledFrom 0 text.toList⟩

/-- A text with blanks before it up to a width, which counts the characters of control sequences as
well. -/
def padLeft (width : Nat) (text : Text) : Text :=
  ⟨List.replicate (width - text.length) (.char ' ')⟩ ++ text

end Rebuild.Text
