import AddressedF.Storage.Basic
import AddressedF.Table

/-!
# Stores in Memory

## Main Definitions

* `MemoryStore`: a table of byte strings and a table of names
-/

namespace AddressedF

/-- A store that is held in memory. -/
structure MemoryStore where
  blobs : Table (Space × Address) (List UInt8)
  names : Table (Space × String) Address

namespace MemoryStore

/-- The store without content. -/
def empty : MemoryStore := ⟨.empty, .empty⟩

/-- The bytes under an address. -/
def get (space : Space) (a : Address) : StoreM MemoryStore (Option (List UInt8)) := fun s =>
  (.ok (s.blobs.get? (space, a)), s)

/-- Puts bytes under an address that has none. -/
def put (space : Space) (a : Address) (bytes : List UInt8) : StoreM MemoryStore Bool := fun s =>
  if s.blobs.contains (space, a) then (.ok false, s)
  else (.ok true, { s with blobs := s.blobs.insert (space, a) bytes })

/-- The address that a name is bound to. -/
def lookup (space : Space) (name : String) : StoreM MemoryStore (Option Address) := fun s =>
  match checkName name with
  | .error e => (.error e, s)
  | .ok _ => (.ok (s.names.get? (space, name)), s)

/-- Binds a name to an address. -/
def bind (space : Space) (name : String) (a : Address) (update : Bool) : StoreM MemoryStore Bool := fun s =>
  match checkName name with
  | .error e => (.error e, s)
  | .ok _ =>
    match s.names.get? (space, name) with
    | none => (.ok true, { s with names := s.names.insert (space, name) a })
    | some existing =>
      if existing = a then (.ok false, s)
      else if update then (.ok false, { s with names := s.names.insert (space, name) a })
      else (.error (.nameConflict space name existing), s)

/-- Takes the binding of a name away. -/
def unbind (space : Space) (name : String) : StoreM MemoryStore Bool := fun s =>
  match checkName name with
  | .error e => (.error e, s)
  | .ok _ =>
    (.ok (s.names.contains (space, name)), { s with names := s.names.erase (space, name) })

instance : NameStore MemoryStore where
  get := get
  put := put
  capacity s := s.blobs.size
  lookup := lookup
  bind := bind
  unbind := unbind

end MemoryStore

end AddressedF
