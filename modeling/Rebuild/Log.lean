import Rebuild.Graph.Insert
import Rebuild.Lookup.Candidates
import Rebuild.Text.Quoted

/-!
# The log

A log entry has a level, the name of the part of the program it comes from, and a text.  Operations
that log return their entries beside their value, in the order in which they arise.
-/

namespace Rebuild

inductive Level where
  | debug
  | info
  | warning
  deriving DecidableEq

namespace Level

def name : Level → Text
  | .debug => "DEBUG"
  | .info => "INFO"
  | .warning => "WARNING"

def rank : Level → Nat
  | .debug => 0
  | .info => 1
  | .warning => 2

end Level

structure LogEntry where
  level : Level
  source : Text
  text : Text
  deriving DecidableEq

namespace LogEntry

def line (entry : LogEntry) : Text :=
  entry.level.name ++ " " ++ entry.source ++ ": " ++ entry.text

def graphSource : Text := "teal_build.graph.dependency_graph"

def resolverSource : Text := "teal_build.resolver"

def plannerSource : Text := "teal_build.planner"

def configSource : Text := "teal_build.config"

/-- What an event of an insertion writes to the log when modules are searched in the given
directories. -/
def ofEvent (dirs : SearchDirs) : InsertEvent → List LogEntry
  | .absolutePath path => [⟨.debug, graphSource, "skipping absolute path " ++ path⟩]
  | .rejected path reason => [⟨.debug, graphSource, "skipping " ++ path ++ ": " ++ reason⟩]
  | .unresolved path reference =>
    let unresolved : LogEntry :=
      ⟨.debug, graphSource, path ++ ": unresolved module " ++ Text.quoted reference⟩
    if SearchDirs.isMalformed reference then [unresolved]
    else
      [⟨.debug, resolverSource,
          "module " ++ Text.quoted reference ++ " not found in " ++
            Text.quotedList dirs.directories⟩,
        unresolved]
  | .circular paths =>
    [⟨.info, graphSource, "circular dependency involving " ++ Text.intercalate ", " paths⟩]

end LogEntry

/-- A value with the log entries that arose on the way to it. -/
structure Logged (α : Type) where
  log : List LogEntry
  value : α

end Rebuild
