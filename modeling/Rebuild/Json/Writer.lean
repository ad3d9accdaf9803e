import Rebuild.Json.Value
import Rebuild.Text.Quoted

/-!
# Writing JSON

Values are written over several lines, indented by two spaces for each level, and in ASCII: any
other character becomes one or two escapes of four hexadecimal digits, and half of a surrogate pair
one.
-/

namespace Rebuild.Json

open Text (unitEscape)

def writeChar (c : Char) : List Char :=
  if c = '"' then ['\\', '"']
  else if c = '\\' then ['\\', '\\']
  else if c = '\n' then ['\\', 'n']
  else if c = '\r' then ['\\', 'r']
  else if c = '\t' then ['\\', 't']
  else if c = '\x08' then ['\\', 'b']
  else if c = '\x0c' then ['\\', 'f']
  else if 0x20 ≤ c.toNat ∧ c.toNat ≤ 0x7e then [c]
  else if c.toNat < 0x10000 then unitEscape c.toNat
  else
    let offset := c.toNat - 0x10000
    unitEscape (0xd800 + offset / 0x400) ++ unitEscape (0xdc00 + offset % 0x400)

def writePoint : CodePoint → List Char
  | .char c => writeChar c
  | .half offset => unitEscape (CodePoint.half offset).toNat

def writeString (text : Text) : String :=
  String.ofList ('"' :: text.toList.flatMap writePoint ++ ['"'])

def newLine (level : Nat) : String :=
  String.ofList ('\n' :: List.replicate (2 * level) ' ')

mutual

/-- Writes a value whose first line stands at the given level. -/
def writeAt (level : Nat) : Json → String
  | .null => "null"
  | .bool true => "true"
  | .bool false => "false"
  | .number text => text
  | .string text => writeString text
  | .array [] => "[]"
  | .array (item :: items) =>
    "[" ++ newLine (level + 1) ++ writeAt (level + 1) item ++ writeItems (level + 1) items ++
      newLine level ++ "]"
  | .object [] => "\x7b\x7d"
  | .object ((name, value) :: fields) =>
    "\x7b" ++ newLine (level + 1) ++ writeString name ++ ": " ++ writeAt (level + 1) value ++
      writeFields (level + 1) fields ++ newLine level ++ "\x7d"

/-- Writes further items, each after a comma. -/
def writeItems (level : Nat) : List Json → String
  | [] => ""
  | item :: items => "," ++ newLine level ++ writeAt level item ++ writeItems level items

/-- Writes further fields, each after a comma. -/
def writeFields (level : Nat) : List (Text × Json) → String
  | [] => ""
  | (name, value) :: fields =>
    "," ++ newLine level ++ writeString name ++ ": " ++ writeAt level value ++
      writeFields level fields

end

def write (value : Json) : String :=
  writeAt 0 value

end Rebuild.Json
