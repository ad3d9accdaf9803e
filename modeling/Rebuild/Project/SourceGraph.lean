import Rebuild.FileTree.SourceFiles
import Rebuild.Project.Output
import Rebuild.Project.Sources

/-!
# The graph of a project

The graph of a project holds the files selected below its source directory, or only some named
files, together with everything they require inside the source directory.  It is built file by
file, and the first file that closes a circle ends the building.
-/

namespace Rebuild

/-- The directories in which the modules of a project are searched, seen from the working
directory. -/
def Config.moduleSearch (config : Config) (here : Location) : SearchDirs :=
  .ofList (config.searchDirs.map here.projectRelative)

namespace Workspace

/-- Inserts files one after the other until one of them closes a circle. -/
def insertAll (ws : Workspace) (dirs : SearchDirs) (scope : Option Text) :
    Graph → List Text → Logged (Except Failure Graph)
  | graph, [] => ⟨[], .ok graph⟩
  | graph, file :: rest =>
    let run := ws.insertFile dirs scope graph file
    let log := run.events.flatMap (LogEntry.ofEvent dirs)
    match run.verdict with
    | .ok [] =>
      let more := ws.insertAll dirs scope run.graph rest
      ⟨log ++ more.log, more.value⟩
    | .ok paths => ⟨log, .error (.circular paths)⟩
    | .error (.failed failure) => ⟨log, .error failure⟩
    | .error .tooDeep => ⟨log, .error .tooDeep⟩

/-- The graph of all selected files below a directory, which is also the scope. -/
def scanGraph (ws : Workspace) (dirs : SearchDirs) (directory : Text) (rules : ScanRules) :
    Logged (Except Failure Graph) :=
  let absolute : List LogEntry :=
    if Path.isAbsolute directory then
      [⟨.warning, LogEntry.graphSource,
        "scan directory " ++ directory ++ " is absolute; " ++
          "its files are outside the project and are skipped"⟩]
    else []
  let all := ws.insertAll dirs (some directory) .empty (ws.sourceFiles directory rules)
  match all.value with
  | .error failure => ⟨absolute ++ all.log, .error failure⟩
  | .ok graph =>
    let done : LogEntry :=
      ⟨.info, LogEntry.graphSource, "scanned " ++ directory ++ s!": {graph.size} node(s)"⟩
    ⟨absolute ++ all.log ++ [done], .ok graph⟩

/-- The graph of a project with the outputs of its files; without named files, of all selected
files. -/
def buildGraph (ws : Workspace) (config : Config) (files : List Text) :
    Logged (Except Failure Graph) :=
  let dirs := config.moduleSearch ws.location
  let directory := config.projectDir ws.location
  let built :=
    if files.isEmpty then ws.scanGraph dirs directory config.rules
    else
      ws.insertAll dirs (some directory) .empty (files.map ws.location.projectRelative)
  ⟨built.log, built.value.map fun graph => graph.withOutputs (config.outputOf ws.location)⟩

end Workspace

end Rebuild
