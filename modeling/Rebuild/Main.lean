import Rebuild.CommandLine.Listing
import Rebuild.CommandLine.Run

/-!
# The program

The program works on the directory it is started in.  It reads a listing of the directory from
standard input and the content of the listed files from the files themselves, runs the command
line on the workspace they make up, and prints the answer.
-/

namespace Rebuild.Program

/-- The lines that are left on a stream. -/
partial def readLines (stream : IO.FS.Stream) (read : List String) : IO (List String) := do
  let line ← stream.getLine
  if line.isEmpty then return read.reverse
  else readLines stream (line.toList.filter (· != '\n') |> String.ofList |> (· :: read))

def accessible (outcome : Except AccessError Workspace) : IO Workspace :=
  match outcome with
  | .ok ws => return ws
  | .error error => throw (IO.userError error.message.written)

/-- Adds a listed entry to a workspace. -/
def addListed (ws : Workspace) (listed : CommandLine.Listed) : IO Workspace := do
  match listed.kind with
  | .folder => accessible (ws.createFolder listed.path listed.modified)
  | .file =>
    let content ← IO.FS.readBinFile listed.path
    accessible (ws.write listed.path ⟨content.toList, listed.modified⟩)

def loadWorkspace : IO Workspace := do
  let directory := (← IO.getEnv "PWD").getD "/"
  let lines ← readLines (← IO.getStdin) []
  let listed := lines.filterMap CommandLine.Listed.ofLine?
  listed.foldlM addListed (.startingIn (Path.parse directory).names ⟨0⟩)

end Rebuild.Program

def main (arguments : List String) : IO UInt32 := do
  let ws ← Rebuild.Program.loadWorkspace
  let response := Rebuild.CommandLine.run ws false (arguments.map Rebuild.Text.ofString)
  IO.print (response.stdout false)
  IO.eprint (response.stderr false)
  match response.crash with
  | some failure => IO.eprintln failure.message.written
  | none => pure ()
  return UInt32.ofNat response.exitCode
