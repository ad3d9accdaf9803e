import Rebuild.Text.Basic

/-!
# Options on a command line

An option is given by its long name, or by its letter after a single hyphen, where several letters
may stand together.  A value follows as the next argument, after an equals sign behind the long
name, or behind the letter.  Two hyphens end the options.  What is no option is an argument; in a
grammar where options come first, the first argument ends the options as well.
-/

namespace Rebuild.CommandLine

structure Opt where
  name : Text
  letter : Option CodePoint
  takesValue : Bool
  deriving DecidableEq

structure Grammar where
  options : List Opt
  optionsFirst : Bool

/-- An option as it is given, with its value if it takes one. -/
structure Given where
  option : Opt
  value : Option Text

inductive OptionError where
  | unknownName (name : Text)
  | unknownLetter (letter : CodePoint)
  | unwantedValue (name : Text)
  | missingValue (name : Text)

/-- The options given, in order, and the arguments. -/
structure Arguments where
  given : List Given
  arguments : List Text

namespace Arguments

def addGiven (arguments : Arguments) (given : List Given) : Arguments :=
  { arguments with given := given ++ arguments.given }

def addArgument (arguments : Arguments) (argument : Text) : Arguments :=
  { arguments with arguments := argument :: arguments.arguments }

end Arguments

/-- What one argument gives: options, and one more whose value is the next argument. -/
structure Piece where
  given : List Given
  waiting : Option (Text × Opt)

namespace Grammar

def byName? (grammar : Grammar) (name : Text) : Option Opt :=
  grammar.options.find? fun option => option.name == name

def byLetter? (grammar : Grammar) (letter : CodePoint) : Option Opt :=
  grammar.options.find? fun option => option.letter == some letter

/-- Reads the letters behind a single hyphen. -/
def readLetters (grammar : Grammar) : List CodePoint → Except OptionError Piece
  | [] => .ok ⟨[], none⟩
  | letter :: rest =>
    match grammar.byLetter? letter with
    | none => .error (.unknownLetter letter)
    | some option =>
      if option.takesValue then
        if rest.isEmpty then .ok ⟨[], some (⟨['-', letter]⟩, option)⟩
        else .ok ⟨[⟨option, some (Text.ofList rest)⟩], none⟩
      else (grammar.readLetters rest).map fun piece =>
        { piece with given := ⟨option, none⟩ :: piece.given }

/-- The name before the first equals sign, and the value behind it if there is one. -/
def splitValue (argument : Text) : Text × Option Text :=
  let chars := argument.toList
  match chars.dropWhile (· != .char '=') with
  | _ :: value => (Text.ofList (chars.takeWhile (· != .char '=')), some (Text.ofList value))
  | [] => (argument, none)

def readOption (grammar : Grammar) (argument : Text) : Except OptionError Piece :=
  let (name, value) := splitValue argument
  match grammar.byName? name, value with
  | some option, some value =>
    if option.takesValue then .ok ⟨[⟨option, some value⟩], none⟩ else .error (.unwantedValue name)
  | some option, none =>
    if option.takesValue then .ok ⟨[], some (name, option)⟩ else .ok ⟨[⟨option, none⟩], none⟩
  | none, _ =>
    match argument.toList with
    | .char '-' :: .char '-' :: _ => .error (.unknownName name)
    | _ :: letters => grammar.readLetters letters
    | [] => .ok ⟨[], none⟩

/-- A hyphen with something behind it opens an option. -/
def isOption (argument : Text) : Bool :=
  match argument.toList with
  | .char '-' :: _ :: _ => true
  | _ => false

/-- Reads the arguments; `waiting` is an option whose value comes first. -/
def readFrom (grammar : Grammar) :
    (waiting : Option (Text × Opt)) → List Text → Except OptionError Arguments
  | none, [] => .ok ⟨[], []⟩
  | some (name, _), [] => .error (.missingValue name)
  | some (_, option), value :: rest =>
    (grammar.readFrom none rest).map (·.addGiven [⟨option, some value⟩])
  | none, argument :: rest =>
    if argument = "--" then .ok ⟨[], rest⟩
    else if isOption argument then
      match grammar.readOption argument with
      | .error error => .error error
      | .ok piece => (grammar.readFrom piece.waiting rest).map (·.addGiven piece.given)
    else if grammar.optionsFirst then .ok ⟨[], argument :: rest⟩
    else (grammar.readFrom none rest).map (·.addArgument argument)

def read (grammar : Grammar) (arguments : List Text) : Except OptionError Arguments :=
  grammar.readFrom none arguments

end Grammar

end Rebuild.CommandLine
