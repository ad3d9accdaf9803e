import Rebuild.CommandLine.Console
import Rebuild.CommandLine.Options
import Rebuild.Text.Similarity

/-!
# Usage

The commands with their options, their help texts, and what is said about a command line that does
not fit them.
-/

namespace Rebuild.CommandLine

def programName : Text := "teal-build"

def version : Text := "0.1.0"

inductive Command where
  | graph
  | check
  | plan
  deriving DecidableEq

/-- Where on the command line something is wrong: before the command, or behind it. -/
inductive Scope where
  | program
  | within (command : Command)
  deriving DecidableEq

inductive UsageError where
  | option (error : OptionError)
  | missingCommand
  | unknownCommand (name : Text)
  | extraArguments (arguments : List Text)
  | isFolder (parameter path : Text)

def helpOption : Opt := ⟨"--help", none, false⟩

def versionOption : Opt := ⟨"--version", none, false⟩

def configOption : Opt := ⟨"--config", none, true⟩

def verboseOption : Opt := ⟨"--verbose", some 'v', false⟩

def jsonOption : Opt := ⟨"--json", none, false⟩

def forceOption : Opt := ⟨"--force", some 'f', false⟩

namespace Command

def all : List Command := [.graph, .check, .plan]

def name : Command → Text
  | .graph => "graph"
  | .check => "check"
  | .plan => "plan"

def ofName? (name : Text) : Option Command :=
  all.find? fun command => command.name == name

def options : Command → List Opt
  | .graph => [jsonOption, helpOption]
  | .check => [helpOption]
  | .plan => [forceOption, helpOption]

end Command

namespace Scope

def grammar : Scope → Grammar
  | .program => ⟨[versionOption, configOption, verboseOption, helpOption], true⟩
  | .within command => ⟨command.options, false⟩

def path : Scope → Text
  | .program => programName
  | .within command => programName ++ " " ++ command.name

def usage : Scope → Text
  | .program => "Usage: " ++ programName ++ " [OPTIONS] COMMAND [ARGS]..."
  | .within .plan => "Usage: " ++ programName ++ " plan [OPTIONS] [FILES]..."
  | .within command => "Usage: " ++ programName ++ " " ++ command.name ++ " [OPTIONS]"

def helpLines : Scope → List Text
  | .program =>
    ["  teal-build: dependency graph and incremental build planning for Teal.",
      "",
      "Options:",
      "  --version      Show the version and exit.",
      "  --config FILE  Config file (default: ./tlbuild.json)",
      "  -v, --verbose  Log more (repeat for debug output)",
      "  --help         Show this message and exit.",
      "",
      "Commands:",
      "  check  Fail on circular requires; warn about unresolved modules.",
      "  graph  Show source files, most depended-upon first.",
      "  plan   List what an incremental build would compile and typecheck."]
  | .within .graph =>
    ["  Show source files, most depended-upon first.",
      "",
      "Options:",
      "  --json  Print the graph as JSON",
      "  --help  Show this message and exit."]
  | .within .check =>
    ["  Fail on circular requires; warn about unresolved modules.",
      "",
      "Options:",
      "  --help  Show this message and exit."]
  | .within .plan =>
    ["  List what an incremental build would compile and typecheck.",
      "",
      "  FILES, when given, are treated as the changed files.",
      "",
      "Options:",
      "  -f, --force  Treat every file as changed",
      "  --help       Show this message and exit."]

def help (scope : Scope) : Text :=
  Text.intercalate "\n" (scope.usage :: "" :: scope.helpLines)

end Scope

/-- A hint at similar names, if there are any. -/
def hint (similar : List Text) : Text :=
  match similar with
  | [] => ""
  | [name] => " Did you mean " ++ Text.quoted name ++ "?"
  | names => " (Did you mean one of: " ++ Text.intercalate ", " (names.map Text.quoted) ++ "?)"

namespace UsageError

def message (scope : Scope) : UsageError → Text
  | .option (.unknownName name) =>
    let similar := Text.closest name (scope.grammar.options.map Opt.name)
    "No such option " ++ Text.quoted name ++ "." ++ hint similar
  | .option (.unknownLetter letter) =>
    "No such option " ++ Text.quoted ⟨['-', letter]⟩ ++ "."
  | .option (.unwantedValue name) => "Option " ++ Text.quoted name ++ " does not take a value."
  | .option (.missingValue name) => "Option " ++ Text.quoted name ++ " requires an argument."
  | .missingCommand => "Missing command."
  | .unknownCommand name =>
    let similar := Text.closest name (Command.all.map Command.name)
    "No such command " ++ Text.quoted name ++ "." ++ hint similar
  | .extraArguments [argument] => "Got unexpected extra argument (" ++ argument ++ ")"
  | .extraArguments arguments =>
    "Got unexpected extra arguments (" ++ Text.intercalate " " arguments ++ ")"
  | .isFolder parameter path =>
    "Invalid value for '" ++ parameter ++ "': File " ++ Text.quoted path ++ " is a directory."

/-- A missing or unwanted value is reported without the usage. -/
def showsUsage : UsageError → Bool
  | .option (.unwantedValue _) | .option (.missingValue _) => false
  | _ => true

def response (scope : Scope) (error : UsageError) : Response :=
  let usage :=
    if error.showsUsage then
      [Line.err scope.usage, .err ("Try '" ++ scope.path ++ " --help' for help."), .err ""]
    else []
  ⟨usage ++ [.err ("Error: " ++ error.message scope)], 2, none⟩

end UsageError

end Rebuild.CommandLine
