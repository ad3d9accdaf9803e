import Rebuild.Order.Sort

/-!
# Similar texts

Two texts are compared by the characters in their shared blocks: the longest block that stands in
both, the first one of several, and then in turn the blocks before it and after it.  They are close
when the shared characters make up at least three fifths of both texts together.
-/

namespace Rebuild.Text

def sharedStart : List CodePoint → List CodePoint → Nat
  | a :: as, b :: bs => if a = b then sharedStart as bs + 1 else 0
  | _, _ => 0

/-- A block by its two places and its length. -/
structure Block where
  first : Nat
  second : Nat
  length : Nat

def longestBlock (first second : List CodePoint) : Block :=
  let places := (List.range first.length).flatMap fun i =>
    (List.range second.length).map fun j => (i, j)
  places.foldl
    (fun best (i, j) =>
      let length := sharedStart (first.drop i) (second.drop j)
      if best.length < length then ⟨i, j, length⟩ else best)
    ⟨0, 0, 0⟩

/-- The number of characters in shared blocks, to the given depth of blocks beside blocks. -/
def sharedWithin : (depth : Nat) → List CodePoint → List CodePoint → Nat
  | 0, _, _ => 0
  | depth + 1, first, second =>
    let block := longestBlock first second
    if block.length = 0 then 0
    else
      sharedWithin depth (first.take block.first) (second.take block.second) + block.length +
        sharedWithin depth (first.drop (block.first + block.length))
          (second.drop (block.second + block.length))

def sharedCount (first second : Text) : Nat :=
  sharedWithin first.length first.toList second.toList

def isClose (first second : Text) : Bool :=
  3 * (first.length + second.length) ≤ 10 * sharedCount first second

/-- Whether `first` is closer to `text` than `second` is, or as close and later in order. -/
def isCloser (text first second : Text) : Bool :=
  let left := sharedCount first text * (second.length + text.length)
  let right := sharedCount second text * (first.length + text.length)
  right < left || (left == right && second ≤ first)

/-- The three closest of the choices that are close to a text, in order. -/
def closest (text : Text) (choices : List Text) : List Text :=
  let close := choices.filter fun choice => isClose choice text
  Order.sortTexts ((Order.sortBy (isCloser text) close).take 3)

end Rebuild.Text
