import Rebuild.Text.Quoted

/-!
# Writing UTF-8

UTF-8 has no form for half of a surrogate pair.  The halves from `U+DC80` to `U+DCFF` stand for the
bytes from `80` to `ff`, so that in file names also bytes that are no UTF-8 can be texts; any other
half makes a text a name that no file can have.  On a console no half can be printed, but a message
may show it as an escape.

The writing stops at the first half that has no form and reports all halves that follow one another
from there.
-/

namespace Rebuild.Text

/-- Where writing stopped: the position of the first half without a form, which one it is, and the
number of halves from there on. -/
structure EncodeError where
  position : Nat
  offset : Fin 0x800
  length : Nat
  deriving DecidableEq

def EncodeError.message (error : EncodeError) : String :=
  let place :=
    if error.length = 1 then
      let escape := String.ofList (unitEscape (CodePoint.half error.offset).toNat)
      s!"character '{escape}' in position {error.position}"
    else s!"characters in position {error.position}-{error.position + error.length - 1}"
  s!"'utf-8' codec can't encode {place}: surrogates not allowed"

/-- Whether a half stands for a byte in file names. -/
def isByte (offset : Fin 0x800) : Bool :=
  0x480 ≤ offset.val && offset.val < 0x500

/-- What stops the writing of code points, the first of which has the given position; `hasForm` says
which halves can be written. -/
def encodeErrorFrom (hasForm : Fin 0x800 → Bool) :
    (position : Nat) → List CodePoint → Option EncodeError
  | _, [] => none
  | position, .char _ :: rest => encodeErrorFrom hasForm (position + 1) rest
  | position, .half offset :: rest =>
    if hasForm offset then encodeErrorFrom hasForm (position + 1) rest
    else some ⟨position, offset, (rest.takeWhile CodePoint.isHalf).length + 1⟩

/-- What keeps a text from being the name of a file. -/
def nameError? (text : Text) : Option EncodeError :=
  encodeErrorFrom isByte 0 text.toList

/-- What keeps a text from being printed. -/
def printError? (text : Text) : Option EncodeError :=
  encodeErrorFrom (fun _ => false) 0 text.toList

/-- The characters of a text, with an escape for each half. -/
def written (text : Text) : String :=
  String.ofList (text.toList.flatMap fun
    | .char c => [c]
    | .half offset => unitEscape (CodePoint.half offset).toNat)

end Rebuild.Text
