import AddressedF.Ty.Basic

/-!
# Named Types

Types as they are written down, with names for variables.

## Main Definitions

* `Surface.Ty`: named types
* `Surface.TypeDef`: named type definitions
* `Surface.Ty.render`, `Surface.TypeDef.render`: their written forms
-/

namespace AddressedF.Surface

/-- Types with named variables. -/
inductive Ty where
  | con (c : TyCon)
  /-- The type constructor defined at an address. -/
  | ref (address : Address)
  | var (name : String)
  | app (function argument : Ty)
  | all (name : String) (kind : Kind) (body : Ty)
  deriving DecidableEq

namespace Ty

/-- The type of functions from `domain` to `codomain`. -/
@[match_pattern] abbrev arrow (domain codomain : Ty) : Ty :=
  app (app (con .arrow) domain) codomain

/-- The domain and the codomain of a function type. -/
def asArrow? : Ty → Option (Ty × Ty)
  | arrow a b => some (a, b)
  | _ => none

/-- Whether a type is a function type. -/
def isArrow (t : Ty) : Bool :=
  t.asArrow?.isSome

/-- Whether a type is quantified. -/
def isQuantified : Ty → Bool
  | all _ _ _ => true
  | _ => false

/-- Whether a type is an application. -/
def isApp : Ty → Bool
  | app _ _ => true
  | _ => false

/-- The type of functions that take the given types in order and return the last of them. -/
def arrows? : List Ty → Option Ty
  | [] => none
  | [t] => some t
  | t :: ts => (arrows? ts).map (arrow t)

/-- Applies a type to arguments, the first innermost. -/
def apply (head : Ty) (arguments : List Ty) : Ty :=
  arguments.foldl app head

/-- A bound name with its kind. -/
def renderBinder (name : String) (kind : Kind) : String :=
  "(" ++ name ++ " : " ++ kind.render ++ ")"

/-- The written form of a named type.  The function of an application is parenthesised only if it is
quantified. -/
def render : Ty → String
  | con c => c.render
  | ref a => "#" ++ a.hex
  | var name => name
  | arrow a b => enclose (a.isArrow || a.isQuantified) a.render ++ " -> " ++ b.render
  | app f a => enclose f.isQuantified f.render ++ " " ++ enclose (a.isApp || a.isQuantified) a.render
  | all name kind body => "∀" ++ renderBinder name kind ++ ". " ++ body.render

end Ty

/-- A type definition with named parameters, the first outermost. -/
structure TypeDef where
  params : List (String × Kind)
  body : Ty
  deriving DecidableEq

/-- The written form of a named type definition. -/
def TypeDef.render (d : TypeDef) : String :=
  "type" ++ String.join (d.params.map fun p => " " ++ Ty.renderBinder p.1 p.2) ++ " = " ++ d.body.render

end AddressedF.Surface
