import Rebuild.FileTree.Timestamp
import Rebuild.Text.Basic

/-!
# File trees

A folder is the list of its entries, each a file or a folder with a name of its own.  Names are
opaque here: what a path text means is decided where it is looked up.
-/

namespace Rebuild

structure File where
  content : List UInt8
  modified : Timestamp

inductive Folder where
  | empty
  | file (name : Text) (file : File) (rest : Folder)
  | folder (name : Text) (modified : Timestamp) (inner rest : Folder)

inductive Entry where
  | file (file : File)
  | folder (modified : Timestamp) (inner : Folder)

namespace Folder

def find? (name : Text) : Folder → Option Entry
  | .empty => none
  | .file other data rest => if other = name then some (.file data) else rest.find? name
  | .folder other modified inner rest =>
    if other = name then some (.folder modified inner) else rest.find? name

def add (name : Text) (entry : Entry) (rest : Folder) : Folder :=
  match entry with
  | .file data => .file name data rest
  | .folder modified inner => .folder name modified inner rest

/-- Gives a name a new entry, in the place of the old one if there is one. -/
def put (name : Text) (entry : Entry) : Folder → Folder
  | .empty => add name entry .empty
  | .file other data rest =>
    if other = name then add name entry rest else .file other data (rest.put name entry)
  | .folder other modified inner rest =>
    if other = name then add name entry rest
    else .folder other modified inner (rest.put name entry)

def erase (name : Text) : Folder → Folder
  | .empty => .empty
  | .file other data rest => if other = name then rest else .file other data (rest.erase name)
  | .folder other modified inner rest =>
    if other = name then rest else .folder other modified inner (rest.erase name)

/-- Gives the place reached by the names a new entry, with folders of the given time on the way
where there are none. -/
def putAt (created : Timestamp) (entry : Entry) : List Text → Folder → Folder
  | [], tree => tree
  | [name], tree => tree.put name entry
  | name :: names, tree =>
    match tree.find? name with
    | some (.folder modified inner) =>
      tree.put name (.folder modified (putAt created entry names inner))
    | _ => tree.put name (.folder created (putAt created entry names .empty))

def eraseAt : List Text → Folder → Folder
  | [], tree => tree
  | [name], tree => tree.erase name
  | name :: names, tree =>
    match tree.find? name with
    | some (.folder modified inner) => tree.put name (.folder modified (eraseAt names inner))
    | _ => tree

/-- Gives every folder the same modification time. -/
def withFolderTimes (time : Timestamp) : Folder → Folder
  | .empty => .empty
  | .file name data rest => .file name data (rest.withFolderTimes time)
  | .folder name _ inner rest =>
    .folder name time (inner.withFolderTimes time) (rest.withFolderTimes time)

/-- Every file at any depth, with the names that lead to it. -/
def files : Folder → List (List Text × File)
  | .empty => []
  | .file name data rest => ([name], data) :: rest.files
  | .folder name _ inner rest =>
    inner.files.map (fun (names, data) => (name :: names, data)) ++ rest.files

/-- The number of bytes in all files together. -/
def byteCount (tree : Folder) : Nat :=
  tree.files.foldr (fun (_, data) total => data.content.length + total) 0

end Folder

end Rebuild
