import Rebuild.Path.Basic

/-!
# File name extensions

The extension starts at the last dot of the file name, unless only dots come before that dot.
A declaration file ends in `.d.tl`, which is swapped as a whole when the extension changes.
-/

namespace Rebuild.Path

def sourceExtension : Text := ".tl"

def declarationSuffix : Text := ".d.tl"

/-- A text before its extension, and the extension with its dot. -/
def splitExtension (text : List CodePoint) : List CodePoint × List CodePoint :=
  let reversed := text.reverse
  let tail := reversed.takeWhile fun c => c != .char '.' && c != .char '/'
  match reversed.drop tail.length with
  | .char '.' :: before =>
    if (before.takeWhile (· != .char '/')).all (· == .char '.') then (text, [])
    else (before.reverse, .char '.' :: tail.reverse)
  | _ => (text, [])

def extension (text : Text) : Text :=
  Text.ofList (splitExtension (slashed text).toList).2

def isDeclaration (text : Text) : Bool :=
  declarationSuffix.toList.isSuffixOf (slashed text).toList

/-- Swaps the extension of a path for another text. -/
def withExtension (text extension : Text) : Text :=
  let path := (canonical text).toList
  let stem :=
    if isDeclaration (canonical text) then path.take (path.length - declarationSuffix.toList.length)
    else (splitExtension path).1
  Text.ofList stem ++ extension

end Rebuild.Path
