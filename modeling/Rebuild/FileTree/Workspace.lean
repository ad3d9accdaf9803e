import Rebuild.FileTree.Basic
import Rebuild.Path.Location
import Rebuild.Text.Encoding
import Rebuild.Text.Newline
import Rebuild.Text.Utf8

/-!
# The workspace

A workspace is a file tree with a working directory in it.  A path is followed name by name through
the tree: unlike in the reduction of path texts, `..` leaves a folder that has to exist, and
whatever comes after the name of a file, be it only a slash, makes the path fail.

Files are written and removed, folders created and times set at the place a path leads to.  Such a
change gives a new workspace, or says why the path does not allow it.

What a file system has beyond a tree is left out.  There are no permissions, so every entry can be
read, listed and looked at, also in a folder that a system may allow to be listed but not searched.
No entry is a link, and the working directory is not removed.  A name is the text it is asked for
with: halves of surrogate pairs that stand for bytes do not name the file of the character that
these bytes would spell.
-/

namespace Rebuild

structure Workspace where
  root : Folder
  rootModified : Timestamp
  location : Location

/-- Why a path leads nowhere, or to something other than was asked for; a folder cannot be created
in a place that is occupied by a file. -/
inductive PathFault where
  | missing
  | notDirectory
  | isDirectory
  | occupied
  deriving DecidableEq

namespace PathFault

def number : PathFault → Nat
  | .missing => 2
  | .notDirectory => 20
  | .isDirectory => 21
  | .occupied => 17

def text : PathFault → Text
  | .missing => "No such file or directory"
  | .notDirectory => "Not a directory"
  | .isDirectory => "Is a directory"
  | .occupied => "File exists"

def message (fault : PathFault) (path : Text) : Text :=
  "[Errno " ++ toString fault.number ++ "] " ++ fault.text ++ ": " ++ Text.quoted path

end PathFault

/-- Why a file system call on a path fails.  A path with a NUL character, or with half of a
surrogate pair that has no form in file names, is refused outright. -/
inductive AccessError where
  | unencodable (error : Text.EncodeError)
  | embeddedNul
  | fault (what : PathFault) (path : Text)
  deriving DecidableEq

inductive ReadError where
  | access (error : AccessError)
  | undecodable (error : Text.Utf8Error)

namespace Path

/-- A path text without its empty names and dots, with every `..` kept. -/
def tidied (text : Text) : Path :=
  ⟨Root.ofChars text.toList, (segments text).filter fun name => name != "" && name != "."⟩

def tidy (text : Text) : Text :=
  (tidied text).render

def parent (path : Path) : Path :=
  { path with names := path.names.dropLast }

/-- The paths on the way to a path, the shortest first and the path itself last. -/
def stages (path : Path) : List Path :=
  (List.range path.names.length).map fun count => { path with names := path.names.take (count + 1) }

end Path

/-- The reason to refuse a path outright, if there is one. -/
def refusal? (text : Text) : Option AccessError :=
  match text.nameError? with
  | some error => some (.unencodable error)
  | none => if text.toList.contains (.char '\x00') then some .embeddedNul else none

/-- Follows names from a folder; `above` holds the folders around it, the innermost first. -/
def Folder.follow (modified : Timestamp) (here : Folder) (above : List (Timestamp × Folder)) :
    List Text → Except PathFault Entry
  | [] => .ok (.folder modified here)
  | name :: names =>
    if name = "" ∨ name = "." then here.follow modified above names
    else if name = ".." then
      match above with
      | [] => here.follow modified [] names
      | (outerModified, outer) :: rest => outer.follow outerModified rest names
    else match here.find? name with
      | none => .error .missing
      | some (.folder innerModified inner) =>
        inner.follow innerModified ((modified, here) :: above) names
      | some (.file data) => if names = [] then .ok (.file data) else .error .notDirectory

namespace Workspace

/-- What a path text leads to. -/
def locate (ws : Workspace) (text : Text) : Except PathFault Entry :=
  if text = "" then .error .missing
  else
    let start := if Root.ofChars text.toList = .relative then ws.location else []
    ws.root.follow ws.rootModified [] (start ++ Path.segments text)

def isFile (ws : Workspace) (text : Text) : Bool :=
  (refusal? text).isNone && (match ws.locate text with
    | .ok (.file _) => true
    | _ => false)

def isFolder (ws : Workspace) (text : Text) : Bool :=
  (refusal? text).isNone && (match ws.locate text with
    | .ok (.folder _ _) => true
    | _ => false)

def modified (ws : Workspace) (text : Text) : Except AccessError Timestamp :=
  match refusal? text with
  | some error => .error error
  | none =>
    match ws.locate text with
    | .ok (.file file) => .ok file.modified
    | .ok (.folder modified _) => .ok modified
    | .error fault => .error (.fault fault text)

/-- The bytes of a file, which is opened under the tidied text of its path. -/
def readBytes (ws : Workspace) (text : Text) : Except AccessError (List UInt8) :=
  let path := Path.tidy text
  match refusal? path with
  | some error => .error error
  | none =>
    match ws.locate path with
    | .ok (.file file) => .ok file.content
    | .ok (.folder _ _) => .error (.fault .isDirectory path)
    | .error fault => .error (.fault fault path)

/-- The characters of a text file, with every line end a line feed. -/
def readText (ws : Workspace) (text : Text) : Except ReadError (List Char) :=
  match ws.readBytes text with
  | .error error => .error (.access error)
  | .ok bytes =>
    match Text.decodeUtf8 bytes with
    | .error error => .error (.undecodable error)
    | .ok chars => .ok (Text.unifyNewlines chars)

/-- The names from the root to the place that a text names. -/
def namesOf (ws : Workspace) (text : Text) : List Text :=
  (ws.location.absolute text).names

/-- A workspace with nothing in it but its working directory. -/
def startingIn (location : Location) (created : Timestamp) : Workspace where
  root := Folder.empty.putAt created (.folder created .empty) location
  rootModified := created
  location := location

/-- Creates a folder in a folder that is there, unless the path leads to something already. -/
def ensureFolder (created : Timestamp) (ws : Workspace) (text : Text) :
    Except AccessError Workspace :=
  match ws.locate text with
  | .ok _ => .ok ws
  | .error .missing =>
    .ok { ws with root := ws.root.putAt created (.folder created .empty) (ws.namesOf text) }
  | .error fault => .error (.fault fault text)

/-- Creates a folder and every folder on the way to it, also one that a later `..` leaves again. -/
def createFolder (ws : Workspace) (text : Text) (created : Timestamp) :
    Except AccessError Workspace :=
  match refusal? text with
  | some error => .error error
  | none =>
    match ((Path.tidied text).stages.map Path.render).foldlM (ensureFolder created) ws with
    | .error error => .error error
    | .ok made =>
      match made.locate (Path.tidy text) with
      | .ok (.file _) => .error (.fault .occupied (Path.tidy text))
      | _ => .ok made

/-- Puts a file in the place of the file that a path leads to, or where nothing is yet; folders that
are missing on the way are created. -/
def write (ws : Workspace) (text : Text) (file : File) : Except AccessError Workspace :=
  let path := Path.tidy text
  match ws.createFolder (Path.tidied text).parent.render file.modified with
  | .error error => .error error
  | .ok made =>
    match refusal? path with
    | some error => .error error
    | none =>
      match made.locate path with
      | .ok (.folder _ _) => .error (.fault .isDirectory path)
      | .ok (.file _) | .error .missing =>
        .ok { made with root := made.root.putAt file.modified (.file file) (made.namesOf path) }
      | .error fault => .error (.fault fault path)

def removeFile (ws : Workspace) (text : Text) : Except AccessError Workspace :=
  match refusal? text with
  | some error => .error error
  | none =>
    match ws.locate text with
    | .ok (.file _) => .ok { ws with root := ws.root.eraseAt (ws.namesOf text) }
    | .ok (.folder _ _) => .error (.fault .isDirectory text)
    | .error fault => .error (.fault fault text)

/-- Gives a file or folder another modification time. -/
def touch (ws : Workspace) (text : Text) (time : Timestamp) : Except AccessError Workspace :=
  let put (entry : Entry) : Workspace :=
    { ws with root := ws.root.putAt time entry (ws.namesOf text) }
  match refusal? text with
  | some error => .error error
  | none =>
    match ws.locate text with
    | .ok (.file file) => .ok (put (.file { file with modified := time }))
    | .ok (.folder _ inner) =>
      if ws.namesOf text = [] then .ok { ws with rootModified := time }
      else .ok (put (.folder time inner))
    | .error fault => .error (.fault fault text)

def withFolderTimes (ws : Workspace) (time : Timestamp) : Workspace :=
  { ws with root := ws.root.withFolderTimes time, rootModified := time }

end Workspace

end Rebuild
