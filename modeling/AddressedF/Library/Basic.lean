import AddressedF.Encoding.Term
import AddressedF.Machine.Basic
import AddressedF.Storage.Basic
import AddressedF.Typing.Basic

/-!
# Libraries

A store together with the signature of what has been checked.

## Main Definitions

* `Library`: a store, a signature, and an order for the references of a definition
* `LibraryError`: why an operation of a library fails
* `Library.fetch`: bytes from the store, checked against their address

## Design Notes

An operation keeps the library when it fails: what was loaded on the way stays known.  The order in which the
references of one definition are loaded is left open, as a permutation that the library carries.
-/

namespace AddressedF

/-- Why an operation of a library fails. -/
inductive LibraryError where
  | store (error : StoreError)
  /-- Stored bytes are no definition. -/
  | decode (error : DecodeError)
  /-- A definition has no encoding. -/
  | encode (error : EncodeError)
  /-- A definition breaks a rule of typing, or mentions what is not there. -/
  | typing (error : TypeError)
  | evaluation (error : MachineError)
  /-- Stored bytes do not belong to their address. -/
  | mismatch (error : Address.Mismatch)
  /-- The name is bound to another address, and was not to be changed. -/
  | nameConflict (space : Space) (name : String) (existing : Address)
  /-- The requested definition is not there. -/
  | notFound (space : Space) (address : Address)
  /-- The requested name is not bound. -/
  | unknownName (space : Space) (name : String)
  /-- A definition depends on itself. -/
  | circular (space : Space) (address : Address)
  deriving DecidableEq

/-- The message of a library error. -/
def LibraryError.message : LibraryError → String
  | store e => s!"store error: {e.message}"
  | decode e => s!"serialization error: {e.message}"
  | encode e => s!"serialization error: {e.message}"
  | typing e => e.message
  | evaluation e => e.message
  | mismatch e => e.message
  | nameConflict space name existing => conflictMessage space name existing
  | notFound space a => s!"{space.name} #{a.hex} not found"
  | unknownName space name => s!"no {space.name} named {name}"
  | circular space a => s!"{space.name} #{a.hex} depends on itself"

/-- A conflict of names is an error of its own; any other error of the store is reported as such. -/
def LibraryError.ofStore : StoreError → LibraryError
  | .nameConflict space name existing => nameConflict space name existing
  | e => store e

/-- The order in which the references of a definition are loaded. -/
structure Schedule where
  arrange : List Address → List Address
  /-- Nothing is left out, and nothing comes twice that did not. -/
  perm : ∀ as, (arrange as).Perm as
  /-- Whether type definitions come before terms. -/
  typesFirst : Bool

/-- From left to right, type definitions before terms. -/
def Schedule.inOrder : Schedule := ⟨id, .refl, true⟩

/-- A store together with the signature of what has been checked. -/
structure Library (σ : Type) where
  store : σ
  signature : Signature
  schedule : Schedule

/-- A computation on a library, which is kept when the computation fails. -/
abbrev LibraryM (σ α : Type) := Stateful LibraryError (Library σ) α

/-- A step that does not look at the library, and whose errors are library errors of one kind. -/
def liftError {ε σ α : Type} (f : ε → LibraryError) (x : Except ε α) : LibraryM σ α :=
  Stateful.lift (x.mapError f)

namespace Library

variable {σ : Type}

/-- A library over a store, of which nothing is known yet. -/
def new (store : σ) : Library σ := ⟨store, .empty, .inOrder⟩

/-- A step on the store. -/
def onStore {α : Type} (x : StoreM σ α) : LibraryM σ α := fun lib =>
  ((x.run lib.store).1.mapError .ofStore, { lib with store := (x.run lib.store).2 })

/-- The signature. -/
def known : LibraryM σ Signature := fun lib =>
  (.ok lib.signature, lib)

/-- Records a checked type definition. -/
def recordType (a : Address) (d : TypeDef) (k : Kind) : LibraryM σ Unit :=
  Stateful.modify fun lib => { lib with signature := lib.signature.addType a d k }

/-- Records a checked term. -/
def recordTerm (a : Address) (t : Term) (T : Ty) : LibraryM σ Unit :=
  Stateful.modify fun lib => { lib with signature := lib.signature.addTerm a t T }

/-- The bytes under an address, if they belong to it. -/
def fetch [BlobStore σ] (space : Space) (a : Address) : LibraryM σ (Option (List UInt8)) := do
  match ← onStore (BlobStore.get space a) with
  | none => return none
  | some bytes =>
    liftError .mismatch (a.verify bytes)
    return some bytes

end Library

end AddressedF
