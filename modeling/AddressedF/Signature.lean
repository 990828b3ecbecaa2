import AddressedF.Table
import AddressedF.Term.Basic
import AddressedF.Ty.Definition

/-!
# Signatures

The definitions that are known, each with the kind or type it was checked to have.

## Main Definitions

* `Signature`: tables of type definitions and of terms, by address
* `Signature.addType`, `Signature.addTerm`: recording a checked definition

## Design Notes

An address determines what it names, so an entry is never replaced: recording a definition under an address
that has an entry changes nothing.  The signature itself checks nothing.
-/

namespace AddressedF

/-- A type definition and the kind of the constructor it defines. -/
structure TypeEntry where
  definition : TypeDef
  kind : Kind
  deriving DecidableEq

/-- A closed term and its type. -/
structure TermEntry where
  term : Term
  type : Ty
  deriving DecidableEq

/-- The known definitions.  Types and terms are looked up apart from each other. -/
structure Signature where
  types : Table Address TypeEntry
  terms : Table Address TermEntry

namespace Signature

/-- The signature that knows nothing. -/
def empty : Signature := ⟨.empty, .empty⟩

/-- Records a type definition, unless the address has one. -/
def addType (sig : Signature) (a : Address) (definition : TypeDef) (kind : Kind) : Signature :=
  { sig with types := sig.types.insertIfNew a ⟨definition, kind⟩ }

/-- Records a term, unless the address has one. -/
def addTerm (sig : Signature) (a : Address) (term : Term) (type : Ty) : Signature :=
  { sig with terms := sig.terms.insertIfNew a ⟨term, type⟩ }

/-- The kind of the constructor defined at an address. -/
def kindAt? (sig : Signature) (a : Address) : Option Kind :=
  (sig.types.get? a).map TypeEntry.kind

/-- The type of the term at an address. -/
def typeAt? (sig : Signature) (a : Address) : Option Ty :=
  (sig.terms.get? a).map TermEntry.type

theorem get?_types_addType (sig : Signature) (a a' : Address) (d : TypeDef) (k : Kind) :
    (sig.addType a d k).types.get? a' =
      if a' = a then some ((sig.types.get? a).getD ⟨d, k⟩) else sig.types.get? a' :=
  Table.get?_insertIfNew _ _ _ _

theorem get?_terms_addTerm (sig : Signature) (a a' : Address) (t : Term) (T : Ty) :
    (sig.addTerm a t T).terms.get? a' =
      if a' = a then some ((sig.terms.get? a).getD ⟨t, T⟩) else sig.terms.get? a' :=
  Table.get?_insertIfNew _ _ _ _

end Signature

end AddressedF
