import AddressedF.Storage.Basic
import AddressedF.Table

/-!
# File Trees

Files and directories below a root, as far as a store needs them.

## Main Definitions

* `FileTree`: what is where
* `FileTree.find`: what a path leads to
* `FileTree.read`, `FileTree.write`, `FileTree.rename`, `FileTree.remove`: files
* `FileTree.makeDirectories`, `FileTree.removeAll`: directories

## Design Notes

A path is the list of its components from the root down; the root itself is the empty path and always a
directory.  A component that is longer than the limit of the tree is an error wherever it is looked up.  A
file is only ever put into a directory that is there.
-/

namespace AddressedF

/-- The components of a path, the outermost first. -/
abbrev Path := List String

/-- Whether one list of numbers comes before another, or is the same, in lexicographic order. -/
def lexLe : List Nat → List Nat → Bool
  | [], _ => true
  | _ :: _, [] => false
  | m :: ms, n :: ns => m < n || (m = n && lexLe ms ns)

/-- Whether one path comes before another, or is the same.  A component that ends counts less than any
character. -/
def Path.isBefore (p q : Path) : Bool :=
  let key (path : Path) : List Nat := path.flatMap fun c => c.toList.map (·.toNat + 1) ++ [0]
  lexLe (key p) (key q)

/-- What is at a path. -/
inductive Node where
  | file (content : List UInt8)
  | directory
  deriving DecidableEq

/-- Files and directories below a root. -/
structure FileTree where
  nodes : Table Path Node
  /-- The greatest length of a component, in bytes of UTF-8, if there is one. -/
  limit : Option Nat

namespace FileTree

/-- A tree that has only its root. -/
def empty (limit : Option Nat) : FileTree := ⟨.empty, limit⟩

/-- Whether a component is longer than the limit. -/
def isTooLong (t : FileTree) (component : String) : Bool :=
  match t.limit with
  | none => false
  | some limit => limit < component.utf8ByteSize

/-- What the path `path` leads to from the directory at `dir`. -/
def findFrom (t : FileTree) (dir : Path) : (path : Path) → Except FileError Node
  | [] => .ok .directory
  | c :: rest =>
    if t.isTooLong c then .error .nameTooLong
    else match t.nodes.get? (dir ++ [c]) with
      | none => .error .notFound
      | some .directory => t.findFrom (dir ++ [c]) rest
      | some (.file content) => if rest = [] then .ok (.file content) else .error .notDirectory

/-- What a path leads to. -/
def find (t : FileTree) (path : Path) : Except FileError Node :=
  t.findFrom [] path

/-- Whether a path leads anywhere. -/
def hasNode (t : FileTree) (path : Path) : Bool :=
  match t.find path with
  | .ok _ => true
  | .error _ => false

/-- The content of a file. -/
def read (t : FileTree) (path : Path) : Except FileError (List UInt8) :=
  match t.find path with
  | .ok (.file content) => .ok content
  | .ok .directory => .error .isDirectory
  | .error e => .error e

/-- The content of a file, or nothing if nothing is there. -/
def read? (t : FileTree) (path : Path) : Except FileError (Option (List UInt8)) :=
  match t.read path with
  | .ok content => .ok (some content)
  | .error .notFound => .ok none
  | .error e => .error e

/-- Whether a path leads to a directory. -/
def checkDirectory (t : FileTree) (path : Path) : Except FileError Unit :=
  match t.find path with
  | .ok .directory => .ok ()
  | .ok (.file _) => .error .notDirectory
  | .error e => .error e

/-- Writes the file `name` in a directory, anew or in place of the file that is there. -/
def write (t : FileTree) (dir : Path) (name : String) (content : List UInt8) :
    Except FileError FileTree := do
  t.checkDirectory dir
  match t.find (dir ++ [name]) with
  | .ok .directory => .error .isDirectory
  | .ok (.file _) | .error .notFound =>
    .ok { t with nodes := t.nodes.insert (dir ++ [name]) (.file content) }
  | .error e => .error e

/-- Gives a file of a directory another name there, in place of the file that has it. -/
def rename (t : FileTree) (dir : Path) (source target : String) : Except FileError FileTree := do
  let content ← t.read (dir ++ [source])
  let t' ← t.write dir target content
  if source = target then .ok t
  else .ok { t' with nodes := t'.nodes.erase (dir ++ [source]) }

/-- Removes a file. -/
def remove (t : FileTree) (path : Path) : Except FileError FileTree := do
  let _ ← t.read path
  return { t with nodes := t.nodes.erase path }

/-- Makes the directories along `path` that are missing, from the directory at `dir`. -/
def makeDirectoriesFrom (t : FileTree) (dir : Path) : (path : Path) → Except FileError FileTree
  | [] => .ok t
  | c :: rest =>
    match t.findFrom dir [c] with
    | .ok .directory => t.makeDirectoriesFrom (dir ++ [c]) rest
    | .ok (.file _) => .error .notDirectory
    | .error .notFound =>
      { t with nodes := t.nodes.insert (dir ++ [c]) .directory }.makeDirectoriesFrom (dir ++ [c]) rest
    | .error e => .error e

/-- Makes the directories along a path that are missing. -/
def makeDirectories (t : FileTree) (path : Path) : Except FileError FileTree :=
  t.makeDirectoriesFrom [] path

/-- The paths that are there, each directory before what is in it and names in order of code points. -/
def listing (t : FileTree) : List (Path × Node) :=
  t.nodes.entries.mergeSort fun p q => p.1.isBefore q.1

/-- Removes what a path leads to, with everything below it. -/
def removeAll (t : FileTree) (path : Path) : Except FileError FileTree := do
  let _ ← t.find path
  let below := t.nodes.keys.filter fun p => path.isPrefixOf p
  return { t with nodes := below.foldl Table.erase t.nodes }

end FileTree

end AddressedF
