import Rebuild.CommandLine.Commands
import Rebuild.CommandLine.Usage

/-!
# Running a command line

Options before the command are settled first: a wrong one ends the run, then the first request for
help or for the version does, and then the configuration file is looked at.  Only then the command
is looked up, and its own options and arguments are settled in the same order.

A word in the place of the command that begins like an option, as can stand there behind two
hyphens, is read as options of the program before it is refused.
-/

namespace Rebuild.CommandLine

def isGiven (option : Opt) (given : List Given) : Bool :=
  given.any fun one => one.option == option

/-- The answer to the first request for help or for the version. -/
def requested? (scope : Scope) (given : List Given) : Option Response :=
  given.findSome? fun one =>
    if one.option = helpOption then some (.success [.out scope.help])
    else if one.option = versionOption then
      some (.success [.out (programName ++ ", version " ++ version)])
    else none

/-- Refuses a file argument that is a folder.  A path that no file can have cannot even be looked
at. -/
def fileResponse? (ws : Workspace) (scope : Scope) (parameter path : Text) : Option Response :=
  match refusal? path with
  | some error => some (.crashed [] (.access error))
  | none =>
    if ws.isFolder path then some (UsageError.response scope (.isFolder parameter path)) else none

/-- The value that was given last. -/
def lastValue? (option : Opt) (given : List Given) : Option Text :=
  (given.reverse.find? fun one => one.option == option).bind Given.value

def levelOf (given : List Given) : Level :=
  match (given.filter fun one => one.option == verboseOption).length with
  | 0 => .warning
  | 1 => .info
  | _ => .debug

/-- The settings before a command and the words from the command on, or the answer that ends the
run there. -/
def readProgram (ws : Workspace) (words : List Text) :
    Except Response (Settings × List Text) :=
  match Scope.program.grammar.read words with
  | .error error => .error (UsageError.response .program (.option error))
  | .ok read =>
    match requested? .program read.given with
    | some response => .error response
    | none =>
      match lastValue? configOption read.given with
      | none => .ok (⟨Workspace.configName, levelOf read.given⟩, read.arguments)
      | some path =>
        match fileResponse? ws .program configOption.name path with
        | some response => .error response
        | none => .ok (⟨path, levelOf read.given⟩, read.arguments)

def runCommand (ws : Workspace) (settings : Settings) (command : Command) (words : List Text) :
    Response :=
  let scope := Scope.within command
  match scope.grammar.read words with
  | .error error => UsageError.response scope (.option error)
  | .ok read =>
    match requested? scope read.given with
    | some response => response
    | none =>
      match command with
      | .plan =>
        match read.arguments.findSome? (fileResponse? ws scope "[FILES]...") with
        | some response => response
        | none => runPlan ws settings read.arguments (isGiven forceOption read.given)
      | .graph =>
        if read.arguments.isEmpty then runGraph ws settings (isGiven jsonOption read.given)
        else UsageError.response scope (.extraArguments read.arguments)
      | .check =>
        if read.arguments.isEmpty then runCheck ws settings
        else UsageError.response scope (.extraArguments read.arguments)

/-- Whether a word begins like an option: with a character that is neither letter nor digit. -/
def looksLikeOption (word : Text) : Bool :=
  match word.toList with
  | .char c :: _ => c == '_' || !Text.isWordChar c
  | .half _ :: _ => true
  | [] => false

def respond (ws : Workspace) (words : List Text) : Response :=
  if words.isEmpty then ⟨[.err Scope.program.help], 2, none⟩
  else match readProgram ws words with
    | .error response => response
    | .ok (_, []) => UsageError.response .program .missingCommand
    | .ok (settings, name :: rest) =>
      match Command.ofName? name with
      | some command => runCommand ws settings command rest
      | none =>
        let refused := UsageError.response .program (.unknownCommand name)
        if looksLikeOption name then
          match readProgram ws (name :: rest) with
          | .error response => response
          | .ok _ => refused
        else refused

/-- The response to a command line, as far as it can be printed. -/
def run (ws : Workspace) (color : Bool) (words : List Text) : Response :=
  (respond ws words).printed color

end Rebuild.CommandLine
