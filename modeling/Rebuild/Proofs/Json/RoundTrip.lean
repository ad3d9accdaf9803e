import Rebuild.Proofs.Json.Strings

/-!
# Reading what is written

A written value is read back as it was, with the surrogate pairs in its texts fused.  Values are
taken at the front of a text: whatever follows in what is written is a comma or the end of a line,
and either tells where a number ends.  The spaces that the writer adds are those that the reader
passes over.
-/

namespace Rebuild.Json

mutual

/-- A value with the surrogate pairs in its texts fused. -/
def fused : Json → Json
  | .null => .null
  | .bool value => .bool value
  | .number text => .number text
  | .string text => .string (fuse text)
  | .array items => .array (fusedItems items)
  | .object fields => .object (fusedFields fields)

def fusedItems : List Json → List Json
  | [] => []
  | item :: items => item.fused :: fusedItems items

def fusedFields : List (Text × Json) → List (Text × Json)
  | [] => []
  | (name, value) :: fields => (fuse name, value.fused) :: fusedFields fields

end

variable {value : Json} {items : List Json} {fields : List (Text × Json)} {suffix : List Char}
  {level depth position : Nat}

/-! ## Spaces -/

section Steps

variable {cursor after later last : Cursor} {item : Json} {name : Text} {rest behind : List Char}
  {next colon : Nat}

end Steps

/-! ## Values -/

end Rebuild.Json
