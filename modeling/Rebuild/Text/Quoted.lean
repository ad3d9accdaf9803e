import Rebuild.Text.Basic
import Rebuild.Text.Printable

/-!
# Quoted text

A quoted text stands between apostrophes, or between double quotes when it holds an apostrophe and
no double quote.  The backslash and the quote itself are written after a backslash, and unprintable
characters as escapes of two, four or eight hexadecimal digits, as is half of a surrogate pair, so
a quoted text is one line of visible characters.
-/

namespace Rebuild.Text

/-- The last `width` hexadecimal digits of a number. -/
def hex : (width : Nat) → Nat → List Char
  | 0, _ => []
  | width + 1, n => hex width (n / 16) ++ [Nat.digitChar (n % 16)]

/-- Four hexadecimal digits after a backslash and a letter. -/
def unitEscape (unit : Nat) : List Char :=
  '\\' :: 'u' :: hex 4 unit

def escapeChar (quote c : Char) : List Char :=
  if c = quote ∨ c = '\\' then ['\\', c]
  else if c = '\n' then ['\\', 'n']
  else if c = '\r' then ['\\', 'r']
  else if c = '\t' then ['\\', 't']
  else if isPrintable c then [c]
  else if c.toNat < 0x100 then '\\' :: 'x' :: hex 2 c.toNat
  else if c.toNat < 0x10000 then unitEscape c.toNat
  else '\\' :: 'U' :: hex 8 c.toNat

def escapePoint (quote : Char) : CodePoint → List Char
  | .char c => escapeChar quote c
  | .half offset => unitEscape (CodePoint.half offset).toNat

def quoteFor (text : List CodePoint) : Char :=
  if .char '\'' ∈ text ∧ .char '"' ∉ text then '"' else '\''

def quoted (text : Text) : Text :=
  let quote := quoteFor text.toList
  String.ofList (quote :: text.toList.flatMap (escapePoint quote) ++ [quote])

/-- A list of quoted texts between square brackets. -/
def quotedList (texts : List Text) : Text :=
  "[" ++ intercalate ", " (texts.map quoted) ++ "]"

end Rebuild.Text
