import AddressedF.Ty.Printer

/-!
# Terms

The terms of the core calculus.  Term variables are indices that count the enclosing functions outward;
type variables are counted apart from them.

## Main Definitions

* `Term`: terms
* `Term.references`: the definitions that a term mentions
* `Term.render`: the written form of a term

## Design Notes

There are no term constants.  The two sides of an opaque type are `pack`, from the representation to the
opaque type, and `unpack`, back again.
-/

namespace AddressedF

/-- The terms of the core calculus. -/
inductive Term where
  /-- The variable bound by the function `index` steps outward. -/
  | var (index : Nat)
  /-- The term stored at an address. -/
  | ref (address : Address)
  | app (function argument : Term)
  /-- A function with a parameter of the given type. -/
  | lam (domain : Ty) (body : Term)
  /-- A polymorphic term at a type. -/
  | tapp (function : Term) (argument : Ty)
  /-- A term that is polymorphic in a type of the given kind. -/
  | tlam (kind : Kind) (body : Term)
  /-- From the representation of an opaque type to the type itself. -/
  | pack (address : Address)
  /-- From an opaque type to its representation. -/
  | unpack (address : Address)
  deriving DecidableEq

/-- The addresses that a term mentions, by what they name. -/
structure References where
  terms : List Address
  types : List Address
  deriving DecidableEq

namespace References

/-- No addresses. -/
def empty : References := ⟨[], []⟩

/-- The addresses of two parts of a term. -/
def append (r s : References) : References := ⟨r.terms ++ s.terms, r.types ++ s.types⟩

instance : Append References := ⟨append⟩

end References

/-- The addresses that a type mentions, all of them of type definitions. -/
def Ty.asReferences (t : Ty) : References := ⟨[], t.references⟩

namespace Term

/-- Applies a term to arguments, the first innermost. -/
def apply (head : Term) (arguments : List Term) : Term :=
  arguments.foldl app head

/-- Applies a term to types, the first innermost. -/
def applyTypes (head : Term) (arguments : List Ty) : Term :=
  arguments.foldl tapp head

/-- A function of the given parameters, the first outermost. -/
def lams (domains : List Ty) (body : Term) : Term :=
  domains.foldr lam body

/-- A term polymorphic in types of the given kinds, the first outermost. -/
def tlams (kinds : List Kind) (body : Term) : Term :=
  kinds.foldr tlam body

theorem apply_cons (head a : Term) (as : List Term) :
    head.apply (a :: as) = (app head a).apply as := rfl

theorem applyTypes_cons (head : Term) (a : Ty) (as : List Ty) :
    head.applyTypes (a :: as) = (tapp head a).applyTypes as := rfl

/-- The addresses that a term mentions, from left to right. -/
def references : Term → References
  | var _ => .empty
  | ref a => ⟨[a], []⟩
  | pack a | unpack a => ⟨[], [a]⟩
  | app f a => f.references ++ a.references
  | lam t body => t.asReferences ++ body.references
  | tapp f t => f.references ++ t.asReferences
  | tlam _ body => body.references

/-- Whether a term reaches as far right as it can, so that nothing may follow it. -/
def isAbstraction : Term → Bool
  | lam _ _ | tlam _ _ => true
  | _ => false

/-- Whether a term is more than one word when written. -/
def isCompound : Term → Bool
  | lam _ _ | tlam _ _ | app _ _ | tapp _ _ => true
  | _ => false

/-- The written form of a term. -/
def render : Term → String
  | var i => toString i
  | ref a => "#" ++ a.hex
  | pack a => ">#" ++ a.hex
  | unpack a => "<#" ++ a.hex
  | app f a => enclose f.isAbstraction f.render ++ " " ++ enclose a.isCompound a.render
  | tapp f t => enclose f.isAbstraction f.render ++ " @" ++ t.renderAtom
  | lam t body => "λ" ++ t.renderAtom ++ ". " ++ body.render
  | tlam k body => "Λ" ++ k.renderAtom ++ ". " ++ body.render

end Term

end AddressedF
