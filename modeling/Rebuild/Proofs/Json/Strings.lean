import Rebuild.Json.Writer
import Rebuild.Proofs.Json.Reading

/-!
# Reading a written string

Every code point is written in one way, and the reader takes its spelling back, but for the two
halves of a surrogate pair that stand side by side: these are read as the character that they spell
together.  What decides is whether an escape comes next, so each spelling is read before any further
text of one character at least; the quote that ends a string is always there.
-/

namespace Rebuild

open Text (hex unitEscape)

namespace Json

/-- The character that two halves of a surrogate pair spell. -/
def pair? : CodePoint → CodePoint → Option Char
  | .half first, .half second =>
    let high := (CodePoint.half first).toNat
    let low := (CodePoint.half second).toNat
    if isHighSurrogate high && isLowSurrogate low then some (pairChar high low) else none
  | _, _ => none

/-- Code points with a character in the place of every surrogate pair. -/
def fusePoints : List CodePoint → List CodePoint
  | [] => []
  | [point] => [point]
  | first :: second :: rest =>
    match pair? first second with
    | some c => .char c :: fusePoints rest
    | none => first :: fusePoints (second :: rest)

def fuse (text : Text) : Text :=
  ⟨fusePoints text.toList⟩

variable {tail suffix : List Char} {read points : List CodePoint}
  {unit high low start position : Nat}

/-! ## Escapes -/

end Json

end Rebuild
