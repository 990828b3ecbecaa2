import AddressedF.Library.Basic

/-!
# Loading

A definition is checked after everything it mentions has been loaded, and loaded at most once.

## Main Definitions

* `Library.loadType`, `Library.loadTerm`: a definition by its address
* `Library.checkTypeDef`, `Library.checkTerm`: the kind or the type of a definition in the library

## Design Notes

What a definition mentions is loaded before it, and so on; a definition that mentions itself, however far
down, would be its own digest.  A chain of definitions that are not known yet, each of which mentions the
next, is no longer than the number of byte strings in the store.  That number bounds the depth of loading,
and a longer chain is reported as circular.

Both spaces are always gone through, even if one of them fails.  If both do, the error of the types counts.
-/

namespace AddressedF

namespace Library

variable {σ : Type}

/-- The addresses in the order in which they are to be loaded, each of them once. -/
def arranged (as : List Address) : LibraryM σ (List Address) := fun lib =>
  (.ok (lib.schedule.arrange as.eraseDups), lib)

/-- Loads several type definitions by `load`, none of which may be missing. -/
def requireTypes (load : Address → LibraryM σ (Option TypeEntry)) (as : List Address) :
    LibraryM σ Unit := do
  (← arranged as).forM fun a => do
    if (← load a).isNone then throw (.typing (.undefinedType a))

/-- Loads several terms by `load`, none of which may be missing. -/
def requireTerms (load : Address → LibraryM σ (Option TermEntry)) (as : List Address) :
    LibraryM σ Unit := do
  (← arranged as).forM fun a => do
    if (← load a).isNone then throw (.typing (.undefinedTerm a))

/-- The error of the types, if there is one, and else that of the terms. -/
def settleBoth (forTypes forTerms : Except LibraryError Unit) : LibraryM σ Unit := do
  Stateful.lift forTypes
  Stateful.lift forTerms

/-- Loads everything that a term mentions. -/
def require (loadType : Address → LibraryM σ (Option TypeEntry))
    (loadTerm : Address → LibraryM σ (Option TermEntry)) (refs : References) : LibraryM σ Unit := do
  if (← Stateful.get).schedule.typesFirst then
    let forTypes ← Stateful.attempt (requireTypes loadType refs.types)
    let forTerms ← Stateful.attempt (requireTerms loadTerm refs.terms)
    settleBoth forTypes forTerms
  else
    let forTerms ← Stateful.attempt (requireTerms loadTerm refs.terms)
    let forTypes ← Stateful.attempt (requireTypes loadType refs.types)
    settleBoth forTypes forTerms

/-- The type definition at an address, loaded through at most `depth` others; nothing if the store does not
have it. -/
def loadTypeWithin [BlobStore σ] (depth : Nat) (a : Address) : LibraryM σ (Option TypeEntry) := do
  if let some entry := (← known).types.get? a then return some entry
  match ← fetch .type a with
  | none => return none
  | some bytes =>
    let d ← liftError .decode (TypeDef.decode bytes)
    match depth with
    | 0 => throw (.circular .type a)
    | depth + 1 =>
      requireTypes (loadTypeWithin depth) d.references
      let k ← liftError .typing ((← known).kindOfDef d)
      recordType a d k
      return (← known).types.get? a

/-- The term at an address, loaded through at most `depth` other definitions; nothing if the store does not
have it. -/
def loadTermWithin [BlobStore σ] (depth : Nat) (a : Address) : LibraryM σ (Option TermEntry) := do
  if let some entry := (← known).terms.get? a then return some entry
  match ← fetch .term a with
  | none => return none
  | some bytes =>
    let t ← liftError .decode (Term.decode bytes)
    match depth with
    | 0 => throw (.circular .term a)
    | depth + 1 =>
      require (loadTypeWithin depth) (loadTermWithin depth) t.references
      let T ← liftError .typing ((← known).typeOf .empty t)
      recordTerm a t T
      return (← known).terms.get? a

/-- The number of definitions that a chain may have. -/
def depth [BlobStore σ] : LibraryM σ Nat := fun lib =>
  (.ok (BlobStore.capacity lib.store), lib)

/-- The type definition at an address; nothing if the store does not have it. -/
def loadType [BlobStore σ] (a : Address) : LibraryM σ (Option TypeEntry) := do
  loadTypeWithin (← depth) a

/-- The term at an address; nothing if the store does not have it. -/
def loadTerm [BlobStore σ] (a : Address) : LibraryM σ (Option TermEntry) := do
  loadTermWithin (← depth) a

/-- The kind of what a type definition defines, once all it mentions is loaded. -/
def checkTypeDef [BlobStore σ] (d : TypeDef) : LibraryM σ Kind := do
  requireTypes loadType d.references
  liftError .typing ((← known).kindOfDef d)

/-- The type of a closed term, once all it mentions is loaded. -/
def checkTerm [BlobStore σ] (t : Term) : LibraryM σ Ty := do
  require loadType loadTerm t.references
  liftError .typing ((← known).typeOf .empty t)

end Library

end AddressedF
