import Rebuild.Require.Lexeme
import Rebuild.Text.Blank
import Rebuild.Text.Digit
import Rebuild.Text.WordChar

/-!
# Module references

A module reference is a string literal that follows the word `require`, possibly after one opening
parenthesis.  To find it the literals are masked: each is replaced by its number between two NUL
characters, and each comment by a space, so that what remains is plain code in which neither a
comment nor the inside of a string can look like a call.

The mask is text.  A source that holds NUL characters itself can spell a mask for a literal that
does not exist, or for one that stands elsewhere, and is read as it stands.
-/

namespace Rebuild.Require

def mask (index : Nat) : List Char :=
  '\x00' :: Nat.toDigits 10 index ++ ['\x00']

/-- The code of the lexemes, with the literals numbered from `index`. -/
def maskedFrom (index : Nat) : List Lexeme → List Char
  | [] => []
  | .code c :: rest => c :: maskedFrom index rest
  | .comment _ :: rest => ' ' :: maskedFrom index rest
  | .literal _ _ _ :: rest => mask index ++ maskedFrom (index + 1) rest

def masked (lexemes : List Lexeme) : List Char :=
  maskedFrom 0 lexemes

def literals : List Lexeme → List (List Char)
  | [] => []
  | .literal _ body _ :: rest => body :: literals rest
  | _ :: rest => literals rest

/-- The digits of the mask that a code begins with. -/
def maskDigits? : List Char → Option (List Char)
  | '\x00' :: rest =>
    match rest.takeWhile Text.isDigit, rest.dropWhile Text.isDigit with
    | [], _ => none
    | digits, '\x00' :: _ => some digits
    | _, _ => none
  | _ => none

def keyword : List Char := "require".toList

/-- The digits of the mask that is the argument of a call, given the code after the keyword. -/
def argumentDigits? (code : List Char) : Option (List Char) :=
  match code.dropWhile Text.isBlank with
  | '(' :: inside => maskDigits? (inside.dropWhile Text.isBlank)
  | argument => maskDigits? argument

/-- After a word character, a dot or a colon the keyword is part of a longer name or path. -/
def joinsKeyword (c : Char) : Bool :=
  Text.isWordChar c || c == '.' || c == ':'

/-- The argument digits of every call, given the character before the code. -/
def callsAfter (before : Option Char) : List Char → List (List Char)
  | [] => []
  | c :: rest =>
    let call :=
      if keyword.isPrefixOf (c :: rest) && !before.any joinsKeyword then
        argumentDigits? ((c :: rest).drop keyword.length)
      else none
    call.toList ++ callsAfter (some c) rest

def calls (code : List Char) : List (List Char) :=
  callsAfter none code

inductive ScanError where
  | unclosed (what : Unclosed)
  | noSuchLiteral (number : Nat)
  | longNumber (digits : Nat)
  deriving DecidableEq

/-- The longest run of digits that is taken for a number.  It is never too short for the numbers
of the literals themselves. -/
def maxDigits (bodies : List (List Char)) : Nat :=
  max 4300 (Nat.toDigits 10 bodies.length).length

def literalAt (bodies : List (List Char)) (digits : List Char) : Except ScanError (List Char) :=
  if digits.length ≤ maxDigits bodies then
    let number := Text.digitsValue digits
    match bodies[number]? with
    | some body => .ok body
    | none => .error (.noSuchLiteral number)
  else .error (.longNumber digits.length)

/-- Adds the names of further references, leaving out blank ones and those already there. -/
def collect (names : List String) : List (List Char) → List String
  | [] => names
  | body :: rest =>
    let name := String.ofList (Text.strip body)
    if name = "" ∨ name ∈ names then collect names rest else collect (names ++ [name]) rest

/-- The module references of a source, in the order in which they first appear. -/
def references (source : List Char) : Except ScanError (List String) :=
  match lexemes source with
  | .error unclosed => .error (.unclosed unclosed)
  | .ok parts => ((calls (masked parts)).mapM (literalAt (literals parts))).map (collect [])

end Rebuild.Require
