import Rebuild.Failure
import Rebuild.Log
import Rebuild.Text.Styled

/-!
# The console

A command answers with the lines it prints, an exit code, and the failure that ended it if it could
not be reported otherwise.  Printed lines lose their styles unless styles are wanted; log lines are
written as they are.

Half of a surrogate pair is shown as an escape on the error stream.  The output stream refuses it,
which ends the command where it stands.
-/

namespace Rebuild.CommandLine

inductive Line where
  | out (text : Text)
  | err (text : Text)
  | log (entry : LogEntry)

structure Response where
  lines : List Line
  exitCode : Nat
  crash : Option Failure

namespace Response

def success (lines : List Line) : Response :=
  ⟨lines, 0, none⟩

/-- Ends a command with a message. -/
def failed (lines : List Line) (message : Text) : Response :=
  ⟨lines ++ [.err ("Error: " ++ message)], 1, none⟩

def crashed (lines : List Line) (failure : Failure) : Response :=
  ⟨lines, 1, some failure⟩

def after (lines : List Line) (response : Response) : Response :=
  { response with lines := lines ++ response.lines }

def textOf (color : Bool) (text : Text) : Text :=
  if color then text else Text.unstyled text

/-- The lines before the first one that cannot be printed, and what is wrong with that one. -/
def cut (color : Bool) : List Line → List Line × Option Text.EncodeError
  | [] => ([], none)
  | .out text :: rest =>
    match (textOf color text).printError? with
    | some error => ([], some error)
    | none => ((cut color rest).1.cons (.out text), (cut color rest).2)
  | line :: rest => ((cut color rest).1.cons line, (cut color rest).2)

/-- What is left of a response when it is printed. -/
def printed (color : Bool) (response : Response) : Response :=
  match cut color response.lines with
  | (_, none) => response
  | (lines, some error) => .crashed lines (.unprintable error)

def stdout (response : Response) (color : Bool) : String :=
  String.join (response.lines.map fun line =>
    match line with
    | .out text => (textOf color text).written ++ "\n"
    | _ => "")

def stderr (response : Response) (color : Bool) : String :=
  String.join (response.lines.map fun line =>
    match line with
    | .out _ => ""
    | .err text => (textOf color text).written ++ "\n"
    | .log entry => entry.line.written ++ "\n")

end Response

end Rebuild.CommandLine
