import AddressedF.Library.Loading

/-!
# Operations on Libraries

## Main Definitions

* `Library.getTerm`, `Library.getType`: a definition by its address
* `Library.assessTerm`, `Library.assessType`: what adding a definition would give
* `Library.addTerm`, `Library.addType`: checking a definition and putting it into the store
* `Library.addTermNamed`, `Library.addTypeNamed`: the same, and binding a name to it
* `Library.evaluate`: checking a term and running the machine on it

## Design Notes

A definition is checked before it is encoded, and recorded in the signature before it is put into the store.
A named addition goes through the check twice: once to learn the address, so that a conflict is found while
nothing has been written, and once to add.
-/

namespace AddressedF

/-- A definition that has been added. -/
structure Added (α : Type) where
  address : Address
  /-- Its type or kind. -/
  classifier : α
  /-- Whether the store did not have it. -/
  written : Bool

namespace Library

variable {σ : Type}

/-- The term at an address, and its type. -/
def getTerm [BlobStore σ] (a : Address) : LibraryM σ TermEntry := do
  match ← loadTerm a with
  | some entry => return entry
  | none => throw (.notFound .term a)

/-- The type definition at an address, and the kind of what it defines. -/
def getType [BlobStore σ] (a : Address) : LibraryM σ TypeEntry := do
  match ← loadType a with
  | some entry => return entry
  | none => throw (.notFound .type a)

/-- The address and the type that a term would be added with. -/
def assessTerm [BlobStore σ] (t : Term) : LibraryM σ (Address × Ty) := do
  let T ← checkTerm t
  let bytes ← liftError .encode t.encode
  return (.ofContent bytes, T)

/-- The address and the kind that a type definition would be added with. -/
def assessType [BlobStore σ] (d : TypeDef) : LibraryM σ (Address × Kind) := do
  let k ← checkTypeDef d
  let bytes ← liftError .encode d.encode
  return (.ofContent bytes, k)

/-- Checks a term and puts it into the store. -/
def addTerm [BlobStore σ] (t : Term) : LibraryM σ (Added Ty) := do
  let T ← checkTerm t
  let bytes ← liftError .encode t.encode
  let a := Address.ofContent bytes
  recordTerm a t T
  let written ← onStore (BlobStore.put .term a bytes)
  return ⟨a, T, written⟩

/-- Checks a type definition and puts it into the store. -/
def addType [BlobStore σ] (d : TypeDef) : LibraryM σ (Added Kind) := do
  let k ← checkTypeDef d
  let bytes ← liftError .encode d.encode
  let a := Address.ofContent bytes
  recordType a d k
  let written ← onStore (BlobStore.put .type a bytes)
  return ⟨a, k, written⟩

/-- Checks a term and runs the machine on it, with a bound on its transitions or without one.  There is no
outcome if the run has no end. -/
def evaluate [BlobStore σ] (t : Term) (fuel : Option Nat) : LibraryM σ (Option Outcome) := do
  let _ ← checkTerm t
  match (Machine.new (← known)).evaluate fuel t with
  | some (result, _) => some <$> liftError .evaluation result
  | none => return none

/-- Refuses a name that is bound to another address, unless it may be changed. -/
def checkBindable [NameStore σ] (space : Space) (name : String) (a : Address) (update : Bool) :
    LibraryM σ Unit := do
  if let some existing ← onStore (NameStore.lookup space name) then
    if existing ≠ a && !update then throw (.nameConflict space name existing)

/-- Adds a term and binds a name to it.  Returns also whether the name was unbound. -/
def addTermNamed [NameStore σ] (name : String) (t : Term) (update : Bool) :
    LibraryM σ (Added Ty × Bool) := do
  let (a, _) ← assessTerm t
  checkBindable .term name a update
  let added ← addTerm t
  let bound ← onStore (NameStore.bind .term name added.address update)
  return (added, bound)

/-- Adds a type definition and binds a name to it.  Returns also whether the name was unbound. -/
def addTypeNamed [NameStore σ] (name : String) (d : TypeDef) (update : Bool) :
    LibraryM σ (Added Kind × Bool) := do
  let (a, _) ← assessType d
  checkBindable .type name a update
  let added ← addType d
  let bound ← onStore (NameStore.bind .type name added.address update)
  return (added, bound)

/-- The address that a name is bound to. -/
def resolveName [NameStore σ] (space : Space) (name : String) : LibraryM σ Address := do
  match ← onStore (NameStore.lookup space name) with
  | some a => return a
  | none => throw (.unknownName space name)

/-- The term that a name is bound to, with its address and type. -/
def getTermNamed [NameStore σ] (name : String) : LibraryM σ (Address × TermEntry) := do
  let a ← resolveName .term name
  return (a, ← getTerm a)

/-- The type definition that a name is bound to, with its address and kind. -/
def getTypeNamed [NameStore σ] (name : String) : LibraryM σ (Address × TypeEntry) := do
  let a ← resolveName .type name
  return (a, ← getType a)

/-- Takes the binding of a name away.  Returns whether there was one. -/
def removeName [NameStore σ] (space : Space) (name : String) : LibraryM σ Bool :=
  onStore (NameStore.unbind space name)

end Library

end AddressedF
