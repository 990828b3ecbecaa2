import AddressedF.Surface.Ty

/-!
# Named Terms

Terms as they are written down, with names for variables.

## Main Definitions

* `Surface.Term`: named terms
* `Surface.Term.render`: their written form

## Design Notes

A function may leave out the type of its parameter where the type of the function is known.  An annotation
makes a type known.
-/

namespace AddressedF.Surface

/-- Terms with named variables. -/
inductive Term where
  /-- The term stored at an address. -/
  | ref (address : Address)
  | var (name : String)
  | app (function argument : Term)
  /-- A function, with or without the type of its parameter. -/
  | lam (name : String) (domain : Option Ty) (body : Term)
  /-- A polymorphic term at a type. -/
  | tapp (function : Term) (argument : Ty)
  /-- A term that is polymorphic in a type of the given kind. -/
  | tlam (name : String) (kind : Kind) (body : Term)
  /-- From the representation of an opaque type to the type itself. -/
  | pack (address : Address)
  /-- From an opaque type to its representation. -/
  | unpack (address : Address)
  /-- A term with its type. -/
  | ann (term : Term) (type : Ty)
  deriving DecidableEq

namespace Term

/-- Applies a term to arguments, the first innermost. -/
def apply (head : Term) (arguments : List Term) : Term :=
  arguments.foldl app head

/-- Whether a term reaches as far right as it can, so that nothing may follow it. -/
def isAbstraction : Term → Bool
  | lam _ _ _ | tlam _ _ _ => true
  | _ => false

/-- Whether a term is more than one word when written.  An annotated term has its own parentheses. -/
def isCompound : Term → Bool
  | lam _ _ _ | tlam _ _ _ | app _ _ | tapp _ _ => true
  | _ => false

/-- The written form of a named term. -/
def render : Term → String
  | ref a => "#" ++ a.hex
  | var name => name
  | pack a => ">#" ++ a.hex
  | unpack a => "<#" ++ a.hex
  | app f a => enclose f.isAbstraction f.render ++ " " ++ enclose a.isCompound a.render
  | tapp f t =>
    enclose f.isAbstraction f.render ++ " @" ++ enclose (t.isApp || t.isQuantified) t.render
  | lam name none body => "λ" ++ name ++ ". " ++ body.render
  | lam name (some t) body => "λ(" ++ name ++ " : " ++ t.render ++ "). " ++ body.render
  | tlam name kind body => "Λ" ++ Ty.renderBinder name kind ++ ". " ++ body.render
  | ann t type => "(" ++ t.render ++ " : " ++ type.render ++ ")"

end Term

end AddressedF.Surface
