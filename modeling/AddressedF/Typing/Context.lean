import AddressedF.Ty.Substitution

/-!
# Contexts

The variables that are in scope, with their kinds and types.  The first entry belongs to variable zero.

## Main Definitions

* `Context`: a kind context and a type context
* `Context.pushKind`, `Context.pushType`: going under a binder
* `Context.lookup?`: the type of a term variable

## Design Notes

The type of a term variable is written in terms of the type variables that were in scope where it was
bound.  Each entry remembers how many those were, and it is shifted when it is looked up, past the type
binders entered since.  Going under a type binder therefore leaves the type context as it is.

A context is given here by the plain lists of its entries.  Kept as lists that carry their lengths, contexts
answer the same.
-/

namespace AddressedF

/-- A type together with the number of type binders in scope where it was written. -/
structure Binding where
  type : Ty
  depth : Nat
  deriving DecidableEq

/-- The type of a binding, as seen under `depth` type binders.  There have to be as many as the binding was
written under.  In a context that is built by pushing there always are, so the difference is exact there and
never stops at zero. -/
def Binding.typeAt (b : Binding) (depth : Nat) : Ty :=
  if depth - b.depth = 0 then b.type else b.type.shift (depth - b.depth : Nat) 0

/-- The variables in scope. -/
structure Context where
  kinds : List Kind
  types : List Binding

namespace Context

/-- The context of closed terms. -/
def empty : Context := ⟨[], []⟩

/-- The context under a binder of a type variable. -/
def pushKind (Γ : Context) (k : Kind) : Context :=
  { Γ with kinds := k :: Γ.kinds }

/-- The context under a binder of a term variable. -/
def pushType (Γ : Context) (t : Ty) : Context :=
  { Γ with types := ⟨t, Γ.kinds.length⟩ :: Γ.types }

/-- The type of a term variable, in terms of the type variables now in scope. -/
def lookup? (Γ : Context) (i : Nat) : Option Ty :=
  (Γ.types[i]?).map (·.typeAt Γ.kinds.length)

theorem lookup?_pushType_zero (Γ : Context) (t : Ty) : (Γ.pushType t).lookup? 0 = some t := by
  simp [lookup?, pushType, Binding.typeAt]

theorem lookup?_pushType_succ (Γ : Context) (t : Ty) (i : Nat) :
    (Γ.pushType t).lookup? (i + 1) = Γ.lookup? i := by
  simp [lookup?, pushType]

end Context

end AddressedF
