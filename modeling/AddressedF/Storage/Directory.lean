import AddressedF.Storage.FileTree
import AddressedF.Text.Blank
import AddressedF.Text.Utf8

/-!
# Stores in Directories

A store that keeps every byte string in a file named by its address, and every binding in a file named by
the bound name.

## Main Definitions

* `DirectoryStore`: a file tree, and what the names of temporary files are made of
* `DirectoryStore.openAt`: makes the directories of a store
* `defaultRoot`: where a store is kept if nothing else is said

## Design Notes

Files are written under a temporary name first and then renamed, so that a reader never sees a part of a
file.  The temporary name is the final one with another extension, made of the number of the writing process
and the number of the write.  A name that has no temporary name, such as `..x`, can be looked up but not be
written.  A binding is stored as the written form of its address, and blank space around it is ignored when it
is read.
-/

namespace AddressedF

/-- The directory of a space. -/
def Space.directory : Space → String
  | term => "terms"
  | type => "types"

/-- A store that is kept in a directory. -/
structure DirectoryStore where
  tree : FileTree
  /-- The number of the process that writes. -/
  process : Nat
  /-- How many writes there have been. -/
  writes : Nat

/-- A file name without its extension: without what follows the last dot, unless the dot is the first
character. -/
def withoutExtension (name : String) : String :=
  let chars := name.toList
  let beforeDot := (chars.reverse.dropWhile (· ≠ '.')).drop 1
  if beforeDot = [] then name else String.ofList beforeDot.reverse

namespace DirectoryStore

/-- A step that reads the file tree. -/
def readTree {α : Type} (f : FileTree → Except FileError α) : StoreM DirectoryStore α := fun s =>
  ((f s.tree).mapError .file, s)

/-- A step that changes the file tree, unless it fails. -/
def changeTree (f : FileTree → Except FileError FileTree) : StoreM DirectoryStore Unit := fun s =>
  match f s.tree with
  | .ok tree => (.ok (), { s with tree })
  | .error e => (.error (.file e), s)

/-- The directory of the byte strings of a space. -/
def blobDirectory (space : Space) : Path := [space.directory]

/-- The directory of the names of a space. -/
def nameDirectory (space : Space) : Path := ["names", space.directory]

/-- The directories of a store, in the order in which they are made. -/
def directories : List Path :=
  [blobDirectory .term, nameDirectory .term, blobDirectory .type, nameDirectory .type]

/-- Makes the directories of a store that are missing. -/
def openAt : StoreM DirectoryStore Unit :=
  directories.forM fun path => changeTree (·.makeDirectories path)

/-- The name under which a file is first written.  There is none if only a dot stands in front of the dot
of the extension: what is left when the extension goes is then `..`, the directory above. -/
def temporaryName? (s : DirectoryStore) (name : String) : Option String :=
  if withoutExtension name = "." then none
  else some s!"{withoutExtension name}.tmp.{s.process}.{s.writes}"

/-- Writes a file under its temporary name and then renames it.  Without a temporary name it is a directory
that would have to be written. -/
def writeFile (dir : Path) (name : String) (content : List UInt8) : StoreM DirectoryStore Unit := do
  let temporary? := (← Stateful.get).temporaryName? name
  Stateful.modify fun s => { s with writes := s.writes + 1 }
  match temporary? with
  | none => throw (.file .isDirectory)
  | some temporary =>
    changeTree (·.write dir temporary content)
    changeTree (·.rename dir temporary name)

/-- The bytes under an address. -/
def get (space : Space) (a : Address) : StoreM DirectoryStore (Option (List UInt8)) :=
  readTree (·.read? (blobDirectory space ++ [a.hex]))

/-- Puts bytes under an address that has none. -/
def put (space : Space) (a : Address) (bytes : List UInt8) : StoreM DirectoryStore Bool := do
  if (← Stateful.get).tree.hasNode (blobDirectory space ++ [a.hex]) then
    return false
  else
    writeFile (blobDirectory space) a.hex bytes
    return true

/-- Reads the address in the file of a binding. -/
def readAddress (content : List UInt8) : Except StoreError Address :=
  (Address.ofHex (String.ofList (Text.trim (Text.decodeUtf8 content)))).mapError .badAddress

/-- The address that a name is bound to. -/
def lookup (space : Space) (name : String) : StoreM DirectoryStore (Option Address) := do
  Stateful.lift (checkName name)
  match ← readTree (·.read? (nameDirectory space ++ [name])) with
  | none => return none
  | some content => return some (← Stateful.lift (readAddress content))

/-- Binds a name to an address. -/
def bind (space : Space) (name : String) (a : Address) (update : Bool) : StoreM DirectoryStore Bool := do
  match ← lookup space name with
  | none =>
    writeFile (nameDirectory space) name (Text.encodeUtf8 a.hex)
    return true
  | some existing =>
    if existing = a then
      return false
    else if update then
      writeFile (nameDirectory space) name (Text.encodeUtf8 a.hex)
      return false
    else
      throw (.nameConflict space name existing)

/-- Takes the binding of a name away. -/
def unbind (space : Space) (name : String) : StoreM DirectoryStore Bool := fun s =>
  match checkName name with
  | .error e => (.error e, s)
  | .ok _ =>
    match s.tree.remove (nameDirectory space ++ [name]) with
    | .ok tree => (.ok true, { s with tree })
    | .error .notFound => (.ok false, s)
    | .error e => (.error (.file e), s)

instance : NameStore DirectoryStore where
  get := get
  put := put
  capacity s := s.tree.nodes.size
  lookup := lookup
  bind := bind
  unbind := unbind

end DirectoryStore

/-- A path with one more component. -/
def joinPath (path component : String) : String :=
  if path = "" then component
  else if path.endsWith "/" then path ++ component
  else path ++ "/" ++ component

/-- Where a store is kept: where `store` says, or in a hidden directory of the home directory. -/
def defaultRoot (store home : Option String) : Except StoreError String :=
  match store, home with
  | some path, _ => .ok path
  | none, some path => .ok (joinPath (joinPath path ".tyhash") "store")
  | none, none => .error .noHome

end AddressedF
