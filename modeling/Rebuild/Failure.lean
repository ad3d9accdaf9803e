import Rebuild.Config.Basic
import Rebuild.FileTree.Workspace

/-!
# Failures

What can end an operation on a project.  The first kinds are failures of the project itself, which
are reported to the user as such: a file that cannot be parsed, an unusable configuration, circular
requires, and a file that is not part of the project.  The others are accidents of the files and
path texts that are met on the way.
-/

namespace Rebuild

inductive Failure where
  | unparsable (path reason : Text)
  | unreadableConfig (path reason : Text)
  | configNotObject (path : Text)
  | invalidConfig (path : Text) (errors : List FieldError)
  | circular (paths : List Text)
  | unknownFiles (paths : List Text)
  | access (error : AccessError)
  | undecodable (error : Text.Utf8Error)
  | unprintable (error : Text.EncodeError)
  | noSuchLiteral (number : Nat)
  | longNumber (digits : Nat)
  | longCount
  | tooDeep

def AccessError.message : AccessError → Text
  | .unencodable error => error.message
  | .embeddedNul => "embedded null byte"
  | .fault what path => what.message path

namespace Failure

/-- The first number that is too large to be a place in any list. -/
def placeLimit : Nat := Nat.pow 2 63

def message : Failure → Text
  | .unparsable path reason => path ++ ": " ++ reason
  | .unreadableConfig path reason => "Cannot read " ++ path ++ ": " ++ reason
  | .configNotObject path => path ++ ": expected a JSON object"
  | .invalidConfig path _ => "Invalid " ++ path
  | .circular paths => "Circular dependency detected: " ++ Text.intercalate ", " paths
  | .unknownFiles paths => "Not a source file in this project: " ++ Text.intercalate ", " paths
  | .access error => error.message
  | .undecodable error => error.message
  | .unprintable error => error.message
  | .noSuchLiteral number =>
    if number < placeLimit then "list index out of range"
    else "cannot fit 'int' into an index-sized integer"
  | .longNumber digits =>
    "Exceeds the limit (4300 digits) for integer string conversion: " ++
      s!"value has {digits} digits; " ++ "use sys.set_int_max_str_digits() to increase the limit"
  | .longCount =>
    "Exceeds the limit (4300 digits) for integer string conversion; " ++
      "use sys.set_int_max_str_digits() to increase the limit"
  | .tooDeep => "requires are nested too deep"

/-- Whether a failure is one of the project itself. -/
def isOfProject : Failure → Bool
  | .unparsable _ _ | .unreadableConfig _ _ | .configNotObject _ | .invalidConfig _ _
  | .circular _ | .unknownFiles _ => true
  | .access _ | .undecodable _ | .unprintable _ | .noSuchLiteral _ | .longNumber _ | .longCount
  | .tooDeep => false

end Failure

end Rebuild
