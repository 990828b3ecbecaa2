import AddressedF.Address
import AddressedF.Stateful
import AddressedF.Text.Quoted

/-!
# Stores

What a store of definitions offers: bytes under addresses, and names for addresses.

## Main Definitions

* `Space`: terms and type definitions are stored apart
* `StoreError`: why an operation of a store fails
* `checkName`: the names that may be bound
* `BlobStore`, `NameStore`: the operations of a store

## Design Notes

An operation is a function from the state of the store to a result and a new state.  The state is there after
an error too: an operation may fail half way.  A store of bytes also bounds the number of byte strings it
holds; that bound limits how deep definitions can depend on each other.
-/

namespace AddressedF

/-- What an address or a name refers to. -/
inductive Space where
  | term
  | type
  deriving DecidableEq

/-- The name of a space in messages. -/
def Space.name : Space → String
  | term => "term"
  | type => "type"

/-- Why a file cannot be used. -/
inductive FileError where
  /-- Nothing is there. -/
  | notFound
  /-- Something on the way is no directory. -/
  | notDirectory
  /-- A directory is there, but a file is wanted. -/
  | isDirectory
  /-- A component of the path is too long. -/
  | nameTooLong
  deriving DecidableEq

/-- The text of a file error. -/
def FileError.message : FileError → String
  | notFound => "not found"
  | notDirectory => "not a directory"
  | isDirectory => "is a directory"
  | nameTooLong => "name too long"

/-- Why an operation of a store fails. -/
inductive StoreError where
  /-- The files of the store cannot be used. -/
  | file (error : FileError)
  /-- There is no place to put a store. -/
  | noHome
  | invalidName (name : String)
  /-- What a name is bound to is no address. -/
  | badAddress (error : AddressError)
  /-- The name is bound to another address, and was not to be changed. -/
  | nameConflict (space : Space) (name : String) (existing : Address)
  deriving DecidableEq

/-- The text for a name that is bound to another address. -/
def conflictMessage (space : Space) (name : String) (existing : Address) : String :=
  s!"{space.name} name {name} is already bound to #{existing.hex}"

/-- The message of a store error. -/
def StoreError.message : StoreError → String
  | file e => s!"IO error: {e.message}"
  | noHome => "no HOME environment variable"
  | invalidName name => s!"invalid name {Text.quote name}"
  | badAddress e => s!"bad stored address: {e.message}"
  | nameConflict space name existing => conflictMessage space name existing

/-- Whether a name may be bound: it is a single component of a path. -/
def isValidName (name : String) : Bool :=
  name ≠ "" && name ≠ "." && name ≠ ".." && name.toList.all fun c => c ≠ '/' && c ≠ '\\' && c ≠ '\x00'

/-- Refuses the names that may not be bound. -/
def checkName (name : String) : Except StoreError Unit :=
  if isValidName name then .ok () else .error (.invalidName name)

/-- A computation on a store, which is kept when the computation fails. -/
abbrev StoreM (σ α : Type) := Stateful StoreError σ α

/-- Storage of bytes under addresses. -/
class BlobStore (σ : Type) where
  /-- The bytes under an address. -/
  get : Space → Address → StoreM σ (Option (List UInt8))
  /-- Puts bytes under an address that has none.  Returns whether it did. -/
  put : Space → Address → List UInt8 → StoreM σ Bool
  /-- A bound on the number of byte strings in the store. -/
  capacity : σ → Nat

/-- Storage that also binds names to addresses. -/
class NameStore (σ : Type) extends BlobStore σ where
  /-- The address that a name is bound to. -/
  lookup : Space → String → StoreM σ (Option Address)
  /-- Binds a name to an address.  A name that is bound to another address is only changed if `update` is
  set.  Returns whether the name was unbound. -/
  bind : Space → String → Address → (update : Bool) → StoreM σ Bool
  /-- Takes the binding of a name away.  Returns whether there was one. -/
  unbind : Space → String → StoreM σ Bool

end AddressedF
