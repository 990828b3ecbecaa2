import AddressedF.Term.Basic

/-!
# Erased Terms

What is left of a term when its types are dropped, with constants for bytes.

## Main Definitions

* `Erased`: erased terms
* `Term.erase`: drops all types from a term
* `Erased.render`: the written form of an erased term

## Design Notes

Both sides of an opaque type erase to the identity function: opacity is a matter of types only.  Type
abstraction leaves no trace, so erasure does not move any variable.
-/

namespace AddressedF

/-- The terms that are evaluated. -/
inductive Erased where
  /-- The byte zero. -/
  | zero
  /-- The successor function on bytes. -/
  | succ
  /-- The erasure of the term stored at an address. -/
  | ref (address : Address)
  /-- The variable bound by the function `index` steps outward. -/
  | var (index : Nat)
  /-- A byte that evaluation has produced. -/
  | byte (value : UInt8)
  | app (function argument : Erased)
  | lam (body : Erased)
  deriving DecidableEq

namespace Erased

/-- The identity function. -/
def identity : Erased := lam (var 0)

/-- Applies an erased term to arguments, the first innermost. -/
def apply (head : Erased) (arguments : List Erased) : Erased :=
  arguments.foldl app head

theorem apply_cons (head a : Erased) (as : List Erased) :
    head.apply (a :: as) = (app head a).apply as := rfl

/-- Whether an erased term is a function. -/
def isLam : Erased → Bool
  | lam _ => true
  | _ => false

/-- Whether an erased term is more than one word when written. -/
def isCompound : Erased → Bool
  | app _ _ | lam _ => true
  | _ => false

/-- The written form of an erased term. -/
def render : Erased → String
  | zero => "zeroByte"
  | succ => "succByte"
  | ref a => "#" ++ a.hex
  | var i => toString i
  | byte b => "b" ++ toString b.toNat
  | lam body => "λ" ++ body.render
  | app f a => enclose f.isLam f.render ++ " " ++ enclose a.isCompound a.render

end Erased

/-- Drops all types from a term. -/
def Term.erase : Term → Erased
  | var i => .var i
  | ref a => .ref a
  | app f a => .app f.erase a.erase
  | lam _ body => .lam body.erase
  | tapp f _ => f.erase
  | tlam _ body => body.erase
  | pack _ | unpack _ => .identity

end AddressedF
