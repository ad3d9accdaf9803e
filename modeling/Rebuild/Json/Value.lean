import Rebuild.Text.Basic

/-!
# JSON values

A number is kept as it is written.  An object keeps its fields in the order in which they are
written, repetitions included; of fields with one name the last counts.
-/

namespace Rebuild

inductive Json where
  | null
  | bool (value : Bool)
  | number (text : String)
  | string (text : Text)
  | array (items : List Json)
  | object (fields : List (Text × Json))

namespace Json

def field? (name : Text) (fields : List (Text × Json)) : Option Json :=
  (fields.reverse.find? fun pair => pair.1 == name).map Prod.snd

end Json

end Rebuild
