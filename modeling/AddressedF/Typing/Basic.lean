import AddressedF.Typing.Context
import AddressedF.Typing.Kinding

/-!
# Typing

The types of terms in a context.

## Main Definitions

* `Signature.typeOf`: the type of a term, or the first rule it breaks
* `Signature.checkType`: whether a term has a given type
* `Signature.packType`, `Signature.unpackType`: the types of the two sides of an opaque type

## Design Notes

Types are compared for equality as they stand: opaque types do not unfold, and there is nothing else to
compute in a type.
-/

namespace AddressedF

/-- Compares the type that was found with the one that was expected. -/
def expectType (t : Term) (expected found : Ty) : Except TypeError Unit :=
  if found = expected then .ok () else .error (.typeMismatch t expected found)

theorem expectType_eq_ok_iff {t : Term} {expected found : Ty} :
    expectType t expected found = .ok () ↔ found = expected := by
  unfold expectType
  split <;> simp [*]

/-- The opaque type defined at `a`, applied to the parameters of its definition where they are bound. -/
def TypeDef.opaqueType (d : TypeDef) (a : Address) : Ty :=
  (Ty.ref a).apply ((List.range d.params.length).reverse.map .var)

namespace Signature

/-- The definition at an address. -/
def definitionOf (sig : Signature) (a : Address) : Except TypeError TypeDef :=
  match sig.types.get? a with
  | some entry => .ok entry.definition
  | none => .error (.undefinedType a)

/-- For all parameters, from the representation to the opaque type. -/
def packType (sig : Signature) (a : Address) : Except TypeError Ty := do
  let d ← sig.definitionOf a
  return .quantify d.params (.arrow d.body (d.opaqueType a))

/-- For all parameters, from the opaque type to the representation. -/
def unpackType (sig : Signature) (a : Address) : Except TypeError Ty := do
  let d ← sig.definitionOf a
  return .quantify d.params (.arrow (d.opaqueType a) d.body)

/-- The type of a term.  In an application the function comes first; an argument is looked at only if the
function takes one. -/
def typeOf (sig : Signature) : Context → Term → Except TypeError Ty
  | Γ, .var i =>
    match Γ.lookup? i with
    | some t => .ok t
    | none => .error (.unboundVar i)
  | _, .ref a =>
    match sig.typeAt? a with
    | some t => .ok t
    | none => .error (.undefinedTerm a)
  | Γ, .lam t body => do
    sig.checkKind Γ.kinds t .star
    return .arrow t (← sig.typeOf (Γ.pushType t) body)
  | Γ, .tlam k body => do
    return .all k (← sig.typeOf (Γ.pushKind k) body)
  | Γ, .app f a => do
    let t ← sig.typeOf Γ f
    match t.asArrow? with
    | some (domain, codomain) =>
      expectType a domain (← sig.typeOf Γ a)
      return codomain
    | none => .error (.notFunction (.app f a) t)
  | Γ, .tapp f t => do
    match ← sig.typeOf Γ f with
    | .all k body =>
      sig.checkKind Γ.kinds t k
      return body.instantiate t
    | found => .error (.notPolymorphic (.tapp f t) found)
  | _, .pack a => sig.packType a
  | _, .unpack a => sig.unpackType a

/-- Checks that a term has the expected type. -/
def checkType (sig : Signature) (Γ : Context) (t : Term) (expected : Ty) : Except TypeError Unit := do
  expectType t expected (← sig.typeOf Γ t)

end Signature

end AddressedF
