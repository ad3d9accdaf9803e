import Rebuild.FileTree.SourceFiles
import Rebuild.Json.Value

/-!
# The configuration

A configuration is read from the fields of a JSON object.  Fields that are not named here are
ignored, and a field that is not there keeps its default.  Every field of the wrong kind is
reported, in the order of the fields and then of the items.
-/

namespace Rebuild

/-- Without a build directory every output is written beside its source. -/
structure Config where
  sourceDir : Text
  buildDir : Option Text
  rules : ScanRules
  moduleDirs : List Text
  deriving DecidableEq

inductive FieldProblem where
  | notString
  | notList
  deriving DecidableEq

structure FieldError where
  field : Text
  item : Option Nat
  problem : FieldProblem
  deriving DecidableEq

namespace Config

def default : Config where
  sourceDir := "."
  buildDir := none
  rules := ⟨["**/*.tl"], [], ScanRules.defaultSkipped⟩
  moduleDirs := []

instance : Inhabited Config := ⟨default⟩

abbrev Field (α : Type) := Except (List FieldError) α

def textField (name : Text) (missing : Text) : Option Json → Field Text
  | none => .ok missing
  | some (.string text) => .ok text
  | some _ => .error [⟨name, none, .notString⟩]

def optionalTextField (name : Text) : Option Json → Field (Option Text)
  | none => .ok none
  | some .null => .ok none
  | some (.string text) => .ok (some text)
  | some _ => .error [⟨name, none, .notString⟩]

/-- The texts of a list whose first item has the given index. -/
def textItems (name : Text) (index : Nat) : List Json → Field (List Text)
  | [] => .ok []
  | .string text :: rest => (textItems name (index + 1) rest).map (text :: ·)
  | _ :: rest =>
    let error : FieldError := ⟨name, some index, .notString⟩
    match textItems name (index + 1) rest with
    | .ok _ => .error [error]
    | .error errors => .error (error :: errors)

def textsField (name : Text) (missing : List Text) : Option Json → Field (List Text)
  | none => .ok missing
  | some (.array items) => textItems name 0 items
  | some _ => .error [⟨name, none, .notList⟩]

/-- The errors of a field, if it has any. -/
def errorsOf {α : Type} : Field α → List FieldError
  | .ok _ => []
  | .error errors => errors

def ofFields (fields : List (Text × Json)) : Except (List FieldError) Config :=
  let field (name : Text) := Json.field? name fields
  let sourceDir := textField "source_dir" default.sourceDir (field "source_dir")
  let buildDir := optionalTextField "build_dir" (field "build_dir")
  let included := textsField "include" default.rules.included (field "include")
  let excluded := textsField "exclude" default.rules.excluded (field "exclude")
  let moduleDirs := textsField "include_dir" default.moduleDirs (field "include_dir")
  let skipped := textsField "skip_dirs" default.rules.skipped (field "skip_dirs")
  match sourceDir, buildDir, included, excluded, moduleDirs, skipped with
  | .ok sourceDir, .ok buildDir, .ok included, .ok excluded, .ok moduleDirs, .ok skipped =>
    .ok { sourceDir, buildDir, rules := ⟨included, excluded, skipped⟩, moduleDirs }
  | _, _, _, _, _, _ =>
    .error (errorsOf sourceDir ++ errorsOf buildDir ++ errorsOf included ++ errorsOf excluded ++
      errorsOf moduleDirs ++ errorsOf skipped)

/-- Adds further directories in canonical form, leaving out those already there. -/
def addDirectories (directories : List Text) : List Text → List Text
  | [] => directories
  | text :: rest =>
    let directory := Path.canonical text
    if directory ∈ directories then addDirectories directories rest
    else addDirectories (directories ++ [directory]) rest

/-- The directories in which modules are searched: the module directories, then the source
directory. -/
def searchDirs (config : Config) : List Text :=
  addDirectories [] (config.moduleDirs ++ [config.sourceDir])

end Config

end Rebuild
