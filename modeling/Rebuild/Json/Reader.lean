import Rebuild.Json.Value

/-!
# Reading JSON

A text is read from the front, and the first thing that does not fit ends the reading with its
position, counted in characters from zero.  Besides numbers the names of the infinities and of the
undefined number are accepted.  A number without fraction and exponent may have 4300 digits.  Two
escapes in a row that are the halves of a surrogate pair are one character, and any other half
stands by itself.

The depth allowed to the reader counts the steps into a value and on to the next item; as every
second step consumes a character, twice the length of the text is enough for all texts.
-/

namespace Rebuild.Json

/-- What is wrong at the place where reading ends. -/
inductive Problem where
  | byteOrderMark
  | noValue
  | noName
  | noComma
  | noColon
  | extraData
  | unterminated
  | control
  | escape
  | unicodeEscape
  deriving DecidableEq

def Problem.message : Problem → String
  | .byteOrderMark => "Unexpected UTF-8 BOM (decode using utf-8-sig)"
  | .noValue => "Expecting value"
  | .noName => "Expecting property name enclosed in double quotes"
  | .noComma => "Expecting ',' delimiter"
  | .noColon => "Expecting ':' delimiter"
  | .extraData => "Extra data"
  | .unterminated => "Unterminated string starting at"
  | .control => "Invalid control character at"
  | .escape => "Invalid \\escape"
  | .unicodeEscape => "Invalid \\uXXXX escape"

inductive ReadError where
  | malformed (problem : Problem) (position : Nat)
  | longNumber (digits : Nat)
  deriving DecidableEq

/-- A place in a text: its position, and the characters from there on. -/
structure Cursor where
  position : Nat
  rest : List Char

def Cursor.fail (cursor : Cursor) (problem : Problem) : Except ReadError α :=
  .error (.malformed problem cursor.position)

def Cursor.advance (cursor : Cursor) (count : Nat) : Cursor :=
  ⟨cursor.position + count, cursor.rest.drop count⟩

def isSpace (c : Char) : Bool :=
  c == ' ' || c == '\t' || c == '\n' || c == '\r'

def Cursor.skipSpaces (cursor : Cursor) : Cursor :=
  cursor.advance (cursor.rest.takeWhile isSpace).length

def hexDigit? (c : Char) : Option Nat :=
  if '0' ≤ c ∧ c ≤ '9' then some (c.toNat - '0'.toNat)
  else if 'a' ≤ c ∧ c ≤ 'f' then some (c.toNat - 'a'.toNat + 10)
  else if 'A' ≤ c ∧ c ≤ 'F' then some (c.toNat - 'A'.toNat + 10)
  else none

def hexValue? (digits : List Char) : Option Nat :=
  digits.foldlM (fun value c => (hexDigit? c).map (16 * value + ·)) 0

def isHighSurrogate (unit : Nat) : Bool :=
  0xd800 ≤ unit && unit ≤ 0xdbff

def isLowSurrogate (unit : Nat) : Bool :=
  0xdc00 ≤ unit && unit ≤ 0xdfff

def pairChar (high low : Nat) : Char :=
  Char.ofNat (0x10000 + (high - 0xd800) * 0x400 + (low - 0xdc00))

/-- The character that a letter after a backslash stands for. -/
def escaped? : Char → Option Char
  | '"' => some '"'
  | '\\' => some '\\'
  | '/' => some '/'
  | 'b' => some '\x08'
  | 'f' => some '\x0c'
  | 'n' => some '\n'
  | 'r' => some '\r'
  | 't' => some '\t'
  | _ => none

/-- Four hexadecimal digits at the front of a text, of which they must not be the end. -/
def fourDigits? (text : List Char) : Option Nat :=
  if (text.drop 4).isEmpty then none else hexValue? (text.take 4)

/-- The unit written by an escape that a text starts with, if at least seven characters are
there. -/
def secondUnit? : List Char → Option (Option Nat)
  | '\\' :: 'u' :: digits => if (digits.drop 4).isEmpty then none else some (fourDigits? digits)
  | _ => none

/-- Reads a string after its opening quote, which stands at `start`.  The next `skipped` characters
belong to an escape that is already read, and `text` holds the code points read with the last one
first. -/
def readString (start : Nat) :
    (skipped position : Nat) → (text : List CodePoint) → List Char →
      Except ReadError (Text × Cursor)
  | _, _, _, [] => .error (.malformed .unterminated start)
  | skipped + 1, position, text, _ :: rest =>
    readString start skipped (position + 1) text rest
  | 0, position, text, c :: rest =>
    if c = '"' then .ok (⟨text.reverse⟩, ⟨position + 1, rest⟩)
    else if c = '\\' then
      match rest with
      | [] => .error (.malformed .unterminated start)
      | 'u' :: digits =>
        match fourDigits? digits with
        | none => .error (.malformed .unicodeEscape (position + 1))
        | some unit =>
          match (if isHighSurrogate unit then secondUnit? (digits.drop 4) else none) with
          | none => readString start 5 (position + 1) (.ofUnit unit :: text) rest
          | some none => .error (.malformed .unicodeEscape (position + 7))
          | some (some low) =>
            if isLowSurrogate low then
              readString start 11 (position + 1) (pairChar unit low :: text) rest
            else readString start 5 (position + 1) (.ofUnit unit :: text) rest
      | letter :: _ =>
        match escaped? letter with
        | some character => readString start 1 (position + 1) (character :: text) rest
        | none => .error (.malformed .escape position)
    else if c.toNat ≤ 0x1f then .error (.malformed .control position)
    else readString start 0 (position + 1) (c :: text) rest

def maxDigits : Nat := 4300

/-- The whole part of a number, without its sign. -/
def wholePart? (text : List Char) : Option (List Char) :=
  match text with
  | '0' :: _ => some ['0']
  | c :: _ => if c.isDigit then some (text.takeWhile Char.isDigit) else none
  | [] => none

/-- The fraction that a text begins with, if a digit follows the point. -/
def fraction (text : List Char) : List Char :=
  match text with
  | '.' :: rest =>
    match rest.takeWhile Char.isDigit with
    | [] => []
    | digits => '.' :: digits
  | _ => []

/-- The exponent that a text begins with, if it has a digit. -/
def exponent (text : List Char) : List Char :=
  match text with
  | [] => []
  | e :: rest =>
    let sign := match rest with
      | c :: _ => if c = '+' ∨ c = '-' then [c] else []
      | [] => []
    match (rest.drop sign.length).takeWhile Char.isDigit with
    | [] => []
    | digits => if e = 'e' ∨ e = 'E' then e :: sign ++ digits else []

def readNumber (cursor : Cursor) : Except ReadError (Json × Cursor) :=
  let sign := cursor.rest.take (if cursor.rest.head? = some '-' then 1 else 0)
  match wholePart? (cursor.rest.drop sign.length) with
  | none => cursor.fail .noValue
  | some whole =>
    let afterWhole := cursor.rest.drop (sign.length + whole.length)
    let fraction := fraction afterWhole
    let exponent := exponent (afterWhole.drop fraction.length)
    let text := sign ++ whole ++ fraction ++ exponent
    if fraction.isEmpty && exponent.isEmpty && maxDigits < whole.length then
      .error (.longNumber whole.length)
    else .ok (.number (String.ofList text), cursor.advance text.length)

/-- The words that stand for values. -/
def words : List (List Char × Json) :=
  [("null".toList, .null), ("true".toList, .bool true), ("false".toList, .bool false),
    ("NaN".toList, .number "NaN"), ("Infinity".toList, .number "Infinity"),
    ("-Infinity".toList, .number "-Infinity")]

mutual

def readValue : (depth : Nat) → Cursor → Except ReadError (Json × Cursor)
  | 0, cursor => cursor.fail .noValue
  | depth + 1, cursor =>
    match cursor.rest with
    | [] => cursor.fail .noValue
    | '"' :: rest =>
      (readString cursor.position 0 (cursor.position + 1) [] rest).map fun (text, after) =>
        (.string text, after)
    | '{' :: rest =>
      let inside := Cursor.skipSpaces ⟨cursor.position + 1, rest⟩
      if inside.rest.head? = some '}' then .ok (.object [], inside.advance 1)
      else (readFields depth inside).map fun (fields, after) => (.object fields, after)
    | '[' :: rest =>
      let inside := Cursor.skipSpaces ⟨cursor.position + 1, rest⟩
      if inside.rest.head? = some ']' then .ok (.array [], inside.advance 1)
      else (readItems depth inside).map fun (items, after) => (.array items, after)
    | _ =>
      match words.find? fun word => word.1.isPrefixOf cursor.rest with
      | some (text, value) => .ok (value, cursor.advance text.length)
      | none => readNumber cursor

/-- Reads the items of an array from the first one on, and its closing bracket. -/
def readItems : (depth : Nat) → Cursor → Except ReadError (List Json × Cursor)
  | 0, cursor => cursor.fail .noValue
  | depth + 1, cursor => do
    let (item, after) ← readValue depth cursor
    let after := after.skipSpaces
    match after.rest with
    | ']' :: _ => return ([item], after.advance 1)
    | ',' :: _ =>
      let (items, last) ← readItems depth (after.advance 1).skipSpaces
      return (item :: items, last)
    | _ => after.fail .noComma

/-- Reads the fields of an object from the first one on, and its closing brace. -/
def readFields : (depth : Nat) → Cursor → Except ReadError (List (Text × Json) × Cursor)
  | 0, cursor => cursor.fail .noValue
  | depth + 1, cursor => do
    match cursor.rest with
    | '"' :: rest =>
      let (name, after) ← readString cursor.position 0 (cursor.position + 1) [] rest
      let after := after.skipSpaces
      match after.rest with
      | ':' :: _ =>
        let (value, after) ← readValue depth (after.advance 1).skipSpaces
        let after := after.skipSpaces
        match after.rest with
        | '}' :: _ => return ([(name, value)], after.advance 1)
        | ',' :: _ =>
          let (fields, last) ← readFields depth (after.advance 1).skipSpaces
          return ((name, value) :: fields, last)
        | _ => after.fail .noComma
      | _ => after.fail .noColon
    | _ => cursor.fail .noName

end

/-- Reads a text that is one value. -/
def read (text : List Char) : Except ReadError Json := do
  if text.head? = some '\ufeff' then .error (.malformed .byteOrderMark 0)
  else
    let (value, after) ← readValue (2 * text.length + 2) (Cursor.skipSpaces ⟨0, text⟩)
    let after := after.skipSpaces
    if after.rest.isEmpty then .ok value else after.fail .extraData

/-- The line and column of a position, both counted from one. -/
def lineColumn (text : List Char) (position : Nat) : Nat × Nat :=
  let before := text.take position
  (before.count '\n' + 1, (before.reverse.takeWhile (· != '\n')).length + 1)

/-- What is wrong with a text, and where. -/
def problemAt (text : List Char) (problem : Problem) (position : Nat) : String :=
  let (line, column) := lineColumn text position
  s!"{problem.message}: line {line} column {column} (char {position})"

end Rebuild.Json
