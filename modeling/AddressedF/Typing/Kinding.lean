import AddressedF.Signature
import AddressedF.Typing.Error

/-!
# Kinding

The kinds of types in a kind context, whose first entry is the kind of variable zero.

## Main Definitions

* `Signature.kindOf`: the kind of a type, or the first rule it breaks
* `Signature.checkKind`: whether a type has a given kind
* `Signature.kindOfDef`: the kind of the constructor that a definition introduces
-/

namespace AddressedF

/-- Compares the kind that was found with the one that was expected. -/
def expectKind (t : Ty) (expected found : Kind) : Except TypeError Unit :=
  if found = expected then .ok () else .error (.kindMismatch t expected found)

theorem expectKind_eq_ok_iff {t : Ty} {expected found : Kind} :
    expectKind t expected found = .ok () ↔ found = expected := by
  unfold expectKind
  split <;> simp [*]

namespace Signature

/-- The kind of a type.  In an application the function comes first; an argument is looked at only if the
function takes one. -/
def kindOf (sig : Signature) : List Kind → Ty → Except TypeError Kind
  | _, .con c => .ok c.kind
  | _, .ref a =>
    match sig.kindAt? a with
    | some k => .ok k
    | none => .error (.undefinedType a)
  | ks, .var i =>
    match ks[i]? with
    | some k => .ok k
    | none => .error (.unboundTypeVar i)
  | ks, .all k body => do
    expectKind body .star (← sig.kindOf (k :: ks) body)
    return .star
  | ks, .app f a => do
    match ← sig.kindOf ks f with
    | .arrow domain codomain =>
      expectKind a domain (← sig.kindOf ks a)
      return codomain
    | k => .error (.notConstructor (.app f a) k)

/-- Checks that a type has the expected kind. -/
def checkKind (sig : Signature) (ks : List Kind) (t : Ty) (expected : Kind) : Except TypeError Unit := do
  expectKind t expected (← sig.kindOf ks t)

/-- The kind of the constructor that a definition introduces, if its body has kind `*` under its
parameters. -/
def kindOfDef (sig : Signature) (d : TypeDef) : Except TypeError Kind := do
  sig.checkKind d.params.reverse d.body .star
  return d.kind

end Signature

end AddressedF
