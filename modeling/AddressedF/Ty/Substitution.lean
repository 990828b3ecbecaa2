import AddressedF.Ty.Basic

/-!
# Shifting and Substitution

## Main Definitions

* `Ty.shift`: moves the free variables of a type
* `Ty.subst`: puts a type in place of a variable
* `Ty.instantiate`: the body of a quantified type at a given argument

## Design Notes

Indices are bounded by `maxIndex`.  A shift that would leave the range from zero to that bound stops at its
end, so shifting is total; a shift that stays in the range is plain addition.
-/

namespace AddressedF

/-- The largest index of a variable: the greatest number of sixty-four bits. -/
def maxIndex : Nat := 0xffffffffffffffff

/-- Adds `delta` to an index, stopping at zero and at the largest index. -/
def shiftIndex (delta : Int) (index : Nat) : Nat :=
  min (index + delta).toNat maxIndex

theorem shiftIndex_of_le {n i : Nat} (h : i + n ≤ maxIndex) : shiftIndex n i = i + n := by
  unfold shiftIndex
  omega

theorem shiftIndex_neg_one {i : Nat} (h : i ≤ maxIndex) : shiftIndex (-1) i = i - 1 := by
  unfold shiftIndex
  omega

namespace Ty

/-- Adds `delta` to every variable that points at least `cutoff` binders outward. -/
def shift (delta : Int) (cutoff : Nat) : Ty → Ty
  | con c => con c
  | var i => if cutoff ≤ i then var (shiftIndex delta i) else var i
  | app f a => app (f.shift delta cutoff) (a.shift delta cutoff)
  | all k body => all k (body.shift delta (cutoff + 1))
  | ref a => ref a

/-- Puts `s` in place of variable `index`.  Under a binder that variable is one further out, and so are the
variables of `s`. -/
def subst : Ty → Nat → Ty → Ty
  | con c, _, _ => con c
  | var i, index, s => if i = index then s else var i
  | app f a, index, s => app (f.subst index s) (a.subst index s)
  | all k body, index, s => all k (body.subst (index + 1) (s.shift 1 0))
  | ref a, _, _ => ref a

/-- The body of a quantified type with `argument` in place of the quantified variable.  The argument makes
room for that variable, which is then taken away. -/
def instantiate (body argument : Ty) : Ty :=
  (body.subst 0 (argument.shift 1 0)).shift (-1) 0

end Ty

end AddressedF
