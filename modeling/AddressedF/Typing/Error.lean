import AddressedF.Term.Basic

/-!
# Errors of Kinding and Typing

## Main Definitions

* `TypeError`: the first rule that a type or a term breaks
* `TypeError.message`: its text
-/

namespace AddressedF

/-- The rules that a type or a term may break. -/
inductive TypeError where
  | kindMismatch (type : Ty) (expected found : Kind)
  | typeMismatch (term : Term) (expected found : Ty)
  /-- A term variable that nothing binds. -/
  | unboundVar (index : Nat)
  /-- A type variable that nothing binds. -/
  | unboundTypeVar (index : Nat)
  /-- A reference to a term that is not known. -/
  | undefinedTerm (address : Address)
  /-- A reference to a type definition that is not known. -/
  | undefinedType (address : Address)
  /-- An application of a type whose kind is no arrow. -/
  | notConstructor (type : Ty) (kind : Kind)
  /-- An application of a term that is no function. -/
  | notFunction (term : Term) (type : Ty)
  /-- A term that is not polymorphic, at a type. -/
  | notPolymorphic (term : Term) (type : Ty)
  deriving DecidableEq

/-- The message of a typing error. -/
def TypeError.message : TypeError → String
  | kindMismatch t expected found =>
    s!"kindcheck failed in {t.render}: {found.render} ~ {expected.render}"
  | typeMismatch t expected found =>
    s!"typecheck failed in {t.render}: {found.render} ~ {expected.render}"
  | unboundVar i => s!"undefined var {i}"
  | unboundTypeVar i => s!"undefined tvar {i}"
  | undefinedTerm a => s!"undefined hash #{a.hex}"
  | undefinedType a => s!"undefined type hash #{a.hex}"
  | notConstructor t k => s!"not a kind function in {t.render}, got {k.render}"
  | notFunction t T => s!"not a function in {t.render}, got {T.render}"
  | notPolymorphic t T => s!"not a forall in {t.render}, got {T.render}"

end AddressedF
