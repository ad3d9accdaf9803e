import Rebuild.Text.Basic

/-!
# Sorting

Lists are sorted by insertion.  An element goes before the first one it may stand in front of, so
elements that may stand in front of each other keep their order.
-/

namespace Rebuild.Order

def insertBy (before : α → α → Bool) (x : α) : List α → List α
  | [] => [x]
  | y :: rest => if before x y then x :: y :: rest else y :: insertBy before x rest

def sortBy (before : α → α → Bool) (xs : List α) : List α :=
  xs.foldr (insertBy before) []

def sortTexts (texts : List Text) : List Text :=
  sortBy (fun a b => decide (a ≤ b)) texts

/-- Compares lists of names name by name; a list stands before its own continuations. -/
def namesPrecede : List Text → List Text → Bool
  | [], _ => true
  | _ :: _, [] => false
  | a :: as, b :: bs => decide (a < b) || (a == b && namesPrecede as bs)

end Rebuild.Order
