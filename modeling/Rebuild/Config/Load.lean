import Rebuild.Failure
import Rebuild.Json.Reader
import Rebuild.Log

/-!
# Loading the configuration

A project without a configuration file has the default configuration.  A file that cannot be read,
is not JSON, is no object or has a field of the wrong kind is an unusable configuration; bytes that
are not text, and a number of too many digits, are failures of their own.
-/

namespace Rebuild.Workspace

def configName : Text := "tlbuild.json"

def configOfText (path : Text) (text : List Char) : Except Failure Config :=
  match Json.read text with
  | .error (.malformed problem position) =>
    .error (.unreadableConfig path (Json.problemAt text problem position))
  | .error (.longNumber digits) => .error (.longNumber digits)
  | .ok (.object fields) =>
    match Config.ofFields fields with
    | .ok config => .ok config
    | .error errors => .error (.invalidConfig path errors)
  | .ok _ => .error (.configNotObject path)

def readConfig (ws : Workspace) (path : Text) : Except Failure Config :=
  match ws.readText path with
  | .error (.access (.fault what faulty)) =>
    .error (.unreadableConfig path (what.message faulty))
  | .error (.access refused) => .error (.access refused)
  | .error (.undecodable error) => .error (.undecodable error)
  | .ok text => configOfText path text

def loadConfig (ws : Workspace) (text : Text) : Logged (Except Failure Config) :=
  let path := Path.tidy text
  if ws.isFile path || ws.isFolder path then ⟨[], ws.readConfig path⟩
  else
    ⟨[⟨.debug, LogEntry.configSource, "no " ++ path ++ " found, using defaults"⟩],
      .ok Config.default⟩

end Rebuild.Workspace
