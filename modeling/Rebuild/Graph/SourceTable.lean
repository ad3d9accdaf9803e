import Rebuild.Graph.Insert

/-!
# Sources held in a table

A table gives the references of each of its files, or nothing for a file that cannot be parsed, and
the path of each module.  It keeps a record of the paths it is asked about.
-/

namespace Rebuild

structure SourceTable where
  files : List (Text × Option (List Text))
  modules : List (Text × Text)

namespace SourceTable

/-- The modules of a table that names none: each source file is a module without its extension. -/
def defaultModules (files : List (Text × Option (List Text))) : List (Text × Text) :=
  files.filterMap fun (path, _) =>
    if Path.sourceExtension.toList.isSuffixOf path.toList then
      some (Text.ofList (path.toList.take (path.length - Path.sourceExtension.length)), path)
    else none

/-- The state is the list of paths asked about so far. -/
def sources (table : SourceTable) : Sources (List Text) Empty where
  requires path asked :=
    let scanned := match table.files.lookup path with
      | some (some references) => .refs references
      | _ => .rejected "syntax error"
    (scanned, asked ++ [path])
  resolve reference asked := (table.modules.lookup reference, asked)

/-- Enough depth for every search: each level adds a file of the table. -/
def searchDepth (table : SourceTable) : Nat :=
  table.files.length + 1

end SourceTable

end Rebuild
