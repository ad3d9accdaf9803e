import Rebuild.FileTree.Timestamp

/-!
# Listings of a directory

A listing has a line for every entry at any depth of a directory: a letter for its kind, its
modification time in seconds with a decimal fraction, and its path, with a space between them.
-/

namespace Rebuild.CommandLine

inductive ListedKind where
  | file
  | folder
  deriving DecidableEq

structure Listed where
  kind : ListedKind
  modified : Timestamp
  path : String
  deriving DecidableEq

namespace Listed

def kind? : List Char → Option ListedKind
  | ['f'] => some .file
  | ['d'] => some .folder
  | _ => none

/-- The nanoseconds of a decimal fraction, of which nine places count. -/
def fractionNanoseconds (places : List Char) : Int :=
  let digits := (places ++ List.replicate 9 '0').take 9
  digits.foldl (fun value c => 10 * value + (c.toNat - '0'.toNat : Nat)) 0

def time? (text : List Char) : Option Timestamp :=
  let whole := text.takeWhile (· != '.')
  (String.ofList whole).toInt?.map fun seconds =>
    .ofSeconds seconds (fractionNanoseconds ((text.drop whole.length).drop 1))

def ofLine? (line : String) : Option Listed := do
  let chars := line.toList
  let kind := chars.takeWhile (· != ' ')
  let rest := chars.drop (kind.length + 1)
  let time := rest.takeWhile (· != ' ')
  return ⟨← kind? kind, ← time? time, String.ofList (rest.drop (time.length + 1))⟩

end Listed

end Rebuild.CommandLine
