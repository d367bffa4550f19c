import SourceStepper.OrderedMap
import SourceStepper.Path
import SourceStepper.Text.Split
import SourceStepper.Text.Utf8

/-!
The files that a session works with, as a value. Files and directories are known by the names on the
way to them from the working directory. Below a directory, files are listed depth first, and by name
in each directory.
-/
namespace SourceStepper

inductive FileNode
  | file (content : ByteArray)
  | directory

def FileNode.isDirectory : FileNode → Bool
  | directory => true
  | file _ => false

/-- Files and directories below the working directory, which itself is always there. -/
structure FileTree where
  nodes : OrderedMap (List String) FileNode := .empty

namespace FileTree

/-- The names on the way along a path; the root of the file system counts as a name. -/
def names (path : String) : List String :=
  let parts := (Text.fields '/' path.toList).map String.ofList
  if Path.isAbsolute path.toList then "/" :: parts else parts

def isDirectoryAt (t : FileTree) (key : List String) : Bool :=
  key.isEmpty || (t.nodes.get? key).any FileNode.isDirectory

/-- The place of the directory that holds a directory. -/
def parent (key : List String) : List String :=
  match key.getLast? with
  | none => [".."]
  | some name => if name = ".." then key ++ [".."] else if name = "/" then key else key.dropLast

/-- The place that is reached from a place along names, if everything on the way is there. -/
def follow? (t : FileTree) (key : List String) : List String → Option (List String)
  | [] => if key.isEmpty || t.nodes.contains key then some key else none
  | name :: rest =>
    if !t.isDirectoryAt key then none
    else if name = "" ∨ name = "." then t.follow? key rest
    else if name = ".." then t.follow? (parent key) rest
    else t.follow? (key ++ [name]) rest

/-- The place of what a path leads to. The empty path leads nowhere. -/
def find? (t : FileTree) (path : String) : Option (List String) :=
  if path.isEmpty then none else t.follow? [] (names path)

def isDirectory (t : FileTree) (path : String) : Bool :=
  match t.find? path with
  | some key => t.isDirectoryAt key
  | none => false

def read? (t : FileTree) (path : String) : Option ByteArray :=
  match (t.find? path).bind t.nodes.get? with
  | some (.file content) => some content
  | _ => none

def readText? (t : FileTree) (path : String) : Option String := (t.read? path).bind Text.strict?

/-- The place that a path would have, whether something is there or not. -/
def place (path : String) : List String :=
  (names path).foldl (fun key name =>
    if name = "" ∨ name = "." then key else if name = ".." then parent key else key ++ [name]) []

/-- The tree with directories at all places on the way to a place that are not taken yet. -/
def addParents (t : FileTree) (key : List String) : FileTree :=
  ⟨(List.range key.length).foldl (fun nodes n =>
    if n = 0 then nodes else nodes.alter (key.take n) fun node =>
      some (node.getD .directory)) t.nodes⟩

def add (t : FileTree) (path : String) (node : FileNode) : FileTree :=
  let key := place path
  if key.isEmpty then t else ⟨(t.addParents key).nodes.insert key node⟩

/-- The tree after a file has been written. The directory of the file has to be there, and no
directory can stand in its place. -/
def write? (t : FileTree) (path : String) (content : ByteArray) : Option FileTree :=
  let steps := names path
  match steps.getLast?, t.follow? [] steps.dropLast with
  | some name, some key =>
    if path.isEmpty || name = "" || name = "." || name = ".." then none
    else if !t.isDirectoryAt key || t.isDirectoryAt (key ++ [name]) then none
    else some ⟨t.nodes.insert (key ++ [name]) (.file content)⟩
  | _, _ => none

def removeFile? (t : FileTree) (path : String) : Option FileTree :=
  match t.find? path with
  | some key =>
    if t.isDirectoryAt key then none else some ⟨t.nodes.erase key⟩
  | none => none

/-- Whether a name leads out of the directory that it is looked up in. -/
def isWayOut (name : String) : Bool := name = ".." || name = "/"

/-- The name of a place in the directory at another place, if it is held there. -/
def nameIn? (key place : List String) : Option String :=
  match Text.dropPrefix? key place with
  | some [name] => if isWayOut name then none else some name
  | _ => none

def entriesAt (t : FileTree) (key : List String) : List (String × FileNode) :=
  t.nodes.entries.filterMap fun (place, node) => (nameIn? key place).map fun name => (name, node)

/-- The files below a place, each by the names on the way to it, of which there are at most
`depth`. What a directory holds is visited by name, and a directory as a whole before what stands
behind it. -/
def walk (t : FileTree) : Nat → List String → List (List String)
  | 0, _ => []
  | depth + 1, key => (t.entriesAt key).flatMap fun (name, node) =>
    match node with
    | .file _ => [[name]]
    | .directory => (t.walk depth (key ++ [name])).map (name :: ·)

/-- How many names there are at most on the way to a place. -/
def depth (t : FileTree) : Nat := t.nodes.keys.foldr (fun key n => max key.length n) 0

/-- All files below the directory that a path leads to: for each its path, which starts with the
given one, and its name. -/
def filesBelow (t : FileTree) (path : String) : List (String × String) :=
  match t.find? path with
  | none => []
  | some key =>
    (t.walk t.depth key).map fun names => (names.foldl Path.join path, names.getLastD "")

end FileTree

end SourceStepper
