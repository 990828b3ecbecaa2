import AddressedF.Address
import AddressedF.Kind

/-!
# Types

The types of the core calculus.  Variables are indices that count the enclosing quantifiers outward.

## Main Definitions

* `Ty`: types
* `Ty.arrow`: function types, an application of the arrow constructor
* `Ty.appSpine`, `Ty.arrowSpine`, `Ty.quantifierSpine`: the three ways of taking a type apart
* `Ty.references`: the type definitions that a type mentions

## Design Notes

A function type has no constructor of its own: `a -> b` is the arrow constructor applied to `a` and `b`.  So
the arrow by itself, or applied to one argument, is a type too.  Opaque types are references to definitions
and never unfold.
-/

namespace AddressedF

/-- The type constants. -/
inductive TyCon where
  /-- The function type constructor. -/
  | arrow
  /-- The type of bytes. -/
  | byte
  deriving DecidableEq

/-- The kind of a type constant. -/
def TyCon.kind : TyCon → Kind
  | arrow => .arrow .star (.arrow .star .star)
  | byte => .star

/-- The written form of a type constant. -/
def TyCon.render : TyCon → String
  | arrow => "->"
  | byte => "Byte"

/-- The types of the core calculus. -/
inductive Ty where
  | con (c : TyCon)
  /-- The variable bound by the quantifier `index` steps outward. -/
  | var (index : Nat)
  | app (function argument : Ty)
  /-- Quantification over the types of a kind. -/
  | all (kind : Kind) (body : Ty)
  /-- The opaque type, or type constructor, defined at an address. -/
  | ref (address : Address)
  deriving DecidableEq

namespace Ty

/-- The type of bytes. -/
abbrev byte : Ty := con .byte

/-- The type of functions from `domain` to `codomain`. -/
@[match_pattern] abbrev arrow (domain codomain : Ty) : Ty :=
  app (app (con .arrow) domain) codomain

/-- The domain and the codomain of a function type. -/
def asArrow? : Ty → Option (Ty × Ty)
  | arrow a b => some (a, b)
  | _ => none

/-- Whether a type is a function type. -/
def isArrow (t : Ty) : Bool :=
  t.asArrow?.isSome

/-- Whether a type is a quantification. -/
def isQuantified : Ty → Bool
  | all _ _ => true
  | _ => false

/-- Whether a type is more than one word when written. -/
def isCompound : Ty → Bool
  | app _ _ | all _ _ => true
  | _ => false

theorem asArrow?_arrow (a b : Ty) : (arrow a b).asArrow? = some (a, b) := rfl

theorem eq_arrow_of_asArrow? {t a b : Ty} (h : t.asArrow? = some (a, b)) : t = arrow a b := by
  unfold asArrow? at h
  split at h
  · cases h; rfl
  · cases h

/-- The type of functions that take the given types in order and return the last of them. -/
def arrows? : List Ty → Option Ty
  | [] => none
  | [t] => some t
  | t :: ts => (arrows? ts).map (arrow t)

/-- Applies a type to arguments, the first innermost. -/
def apply (head : Ty) (arguments : List Ty) : Ty :=
  arguments.foldl app head

theorem apply_cons (head a : Ty) (as : List Ty) : head.apply (a :: as) = (app head a).apply as := rfl

/-- Quantifies over the given kinds, the first outermost. -/
def quantify (kinds : List Kind) (body : Ty) : Ty :=
  kinds.foldr all body

theorem quantify_nil (body : Ty) : quantify [] body = body := rfl

theorem quantify_cons (k : Kind) (ks : List Kind) (body : Ty) :
    quantify (k :: ks) body = all k (quantify ks body) := rfl

/-- The head of an application and its arguments, in order. -/
def appSpine : Ty → Ty × List Ty
  | app f a => (f.appSpine.1, f.appSpine.2 ++ [a])
  | t => (t, [])

/-- The arguments of a function type, in order, and its result. -/
def arrowSpine : Ty → List Ty × Ty
  | arrow a b => (a :: b.arrowSpine.1, b.arrowSpine.2)
  | t => ([], t)

/-- The leading quantifiers of a type, the outermost first, and what they range over. -/
def quantifierSpine : Ty → List Kind × Ty
  | all k body => (k :: body.quantifierSpine.1, body.quantifierSpine.2)
  | t => ([], t)

/-- An application is made of its spine. -/
theorem apply_appSpine (t : Ty) : t.appSpine.1.apply t.appSpine.2 = t := by
  induction t with
  | app f a ihf _ =>
    simp only [appSpine, apply, List.foldl_append, List.foldl_cons, List.foldl_nil]
    exact congrArg (app · a) ihf
  | con | var | all | ref => rfl

/-- A quantified type is made of its spine. -/
theorem quantify_quantifierSpine (t : Ty) : quantify t.quantifierSpine.1 t.quantifierSpine.2 = t := by
  induction t with
  | all k body ih => simp [quantifierSpine, quantify_cons, ih]
  | con | var | app | ref => rfl

/-- The addresses of the type definitions that a type mentions, from left to right. -/
def references : Ty → List Address
  | con _ | var _ => []
  | app f a => f.references ++ a.references
  | all _ body => body.references
  | ref a => [a]

end Ty

end AddressedF
