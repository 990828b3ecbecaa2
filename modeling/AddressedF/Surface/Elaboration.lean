import AddressedF.Surface.Scope
import AddressedF.Surface.Term
import AddressedF.Typing.Basic

/-!
# Elaboration

From named types and terms to the core calculus, and their kinds and types on the way.

## Main Definitions

* `Signature.elaborateTy`: the core type of a named type, and its kind
* `Signature.elaborateDef`: the core definition of a named type definition, and its kind
* `Signature.elaborate`: the core term of a named term, and its type

## Design Notes

A term is elaborated either by itself or against an expected type.  The expected type goes into a function
without a parameter type, whose domain it gives, and into a polymorphic term of the expected kind.  Every
other term is elaborated by itself, and its type is then compared with the expected one.  Types are core
types, so the comparison does not depend on names.

An application of something that is no function is reported with the argument only if the argument can be
elaborated; an error of the argument never takes precedence.
-/

namespace AddressedF

/-- Why a named type or term has no elaboration. -/
inductive ElaborationError where
  /-- A rule of the core calculus is broken. -/
  | core (error : TypeError)
  /-- A term variable that nothing binds. -/
  | unboundVar (name : String)
  /-- A type variable that nothing binds. -/
  | unboundTypeVar (name : String)
  /-- A function without a parameter type where no type is expected. -/
  | unknownDomain (term : Surface.Term)
  /-- A function without a parameter type where something other than a function is expected. -/
  | unexpectedFunction (term : Surface.Term) (expected : Ty)
  deriving DecidableEq

/-- The message of an elaboration error. -/
def ElaborationError.message : ElaborationError → String
  | core e => e.message
  | unboundVar name => s!"undefined var {name}"
  | unboundTypeVar name => s!"undefined tvar {name}"
  | unknownDomain t => s!"cannot synthesize a type for {t.render}, add an annotation"
  | unexpectedFunction t expected =>
    s!"lambda {t.render} checked against non-function type {expected.render}"

/-- A check of the core calculus, as a step of elaboration. -/
def liftCore {α : Type} : Except TypeError α → Except ElaborationError α
  | .ok a => .ok a
  | .error e => .error (.core e)

/-- The part of an expected type that belongs to the body of a term polymorphic in a type of kind `k`. -/
def expectedBody? (k : Kind) : Option Ty → Option Ty
  | some (.all k' body) => if k = k' then some body else none
  | _ => none

/-- Accepts a term of type `found` where `expected` is expected, or where nothing is. -/
def settle (expected : Option Ty) (t : Term) (found : Ty) : Except ElaborationError (Term × Ty) :=
  match expected with
  | none => .ok (t, found)
  | some e => do
    liftCore (expectType t e found)
    return (t, found)

namespace Signature

/-- The core type of a named type, and its kind. -/
def elaborateTy (sig : Signature) (scope : Scope) :
    Surface.Ty → Except ElaborationError (Ty × Kind)
  | .con c => .ok (.con c, c.kind)
  | .ref a =>
    match sig.kindAt? a with
    | some k => .ok (.ref a, k)
    | none => .error (.core (.undefinedType a))
  | .var name =>
    match scope.lookupKind? name with
    | some (i, k) => .ok (.var i, k)
    | none => .error (.unboundTypeVar name)
  | .app f a => do
    let (f', k) ← sig.elaborateTy scope f
    match k with
    | .arrow domain codomain =>
      let (a', found) ← sig.elaborateTy scope a
      liftCore (expectKind a' domain found)
      return (.app f' a', codomain)
    | k =>
      match sig.elaborateTy scope a with
      | .ok (a', _) => .error (.core (.notConstructor (.app f' a') k))
      | .error _ => .error (.core (.notConstructor f' k))
  | .all name k body => do
    let (body', found) ← sig.elaborateTy (scope.pushKind name k) body
    liftCore (expectKind body' .star found)
    return (.all k body', .star)

/-- The core type of a named type that has the expected kind. -/
def elaborateTyAt (sig : Signature) (scope : Scope) (t : Surface.Ty) (expected : Kind) :
    Except ElaborationError Ty := do
  let (t', found) ← sig.elaborateTy scope t
  liftCore (expectKind t' expected found)
  return t'

/-- The core definition of a named type definition, and the kind of what it defines. -/
def elaborateDef (sig : Signature) (d : Surface.TypeDef) : Except ElaborationError (TypeDef × Kind) := do
  let scope := d.params.foldl (fun scope p => scope.pushKind p.1 p.2) Scope.empty
  let body ← sig.elaborateTyAt scope d.body .star
  let d' : TypeDef := ⟨d.params.map Prod.snd, body⟩
  return (d', d'.kind)

/-- The core term of a named term, and its type, which is the expected one if there is one. -/
def elaborate (sig : Signature) (scope : Scope) (expected : Option Ty) :
    Surface.Term → Except ElaborationError (Term × Ty)
  | .ref a =>
    match sig.typeAt? a with
    | some t => settle expected (.ref a) t
    | none => .error (.core (.undefinedTerm a))
  | .var name =>
    match scope.lookupType? name with
    | some (i, t) => settle expected (.var i) t
    | none => .error (.unboundVar name)
  | .app f a => do
    let (f', t) ← sig.elaborate scope none f
    match t.asArrow? with
    | some (domain, codomain) =>
      let (a', _) ← sig.elaborate scope (some domain) a
      settle expected (.app f' a') codomain
    | none =>
      match sig.elaborate scope none a with
      | .ok (a', _) => .error (.core (.notFunction (.app f' a') t))
      | .error _ => .error (.core (.notFunction f' t))
  | .lam name (some t) body => do
    let t' ← sig.elaborateTyAt scope t .star
    let (body', codomain) ← sig.elaborate (scope.pushType name t') none body
    settle expected (.lam t' body') (.arrow t' codomain)
  | .lam name none body =>
    match expected with
    | none => .error (.unknownDomain (.lam name none body))
    | some e =>
      match e.asArrow? with
      | some (domain, codomain) => do
        let (body', _) ← sig.elaborate (scope.pushType name domain) (some codomain) body
        return (.lam domain body', e)
      | none => .error (.unexpectedFunction (.lam name none body) e)
  | .tapp f t => do
    let (f', found) ← sig.elaborate scope none f
    match found with
    | .all k body =>
      let t' ← sig.elaborateTyAt scope t k
      settle expected (.tapp f' t') (body.instantiate t')
    | found =>
      match sig.elaborateTy scope t with
      | .ok (t', _) => .error (.core (.notPolymorphic (.tapp f' t') found))
      | .error _ => .error (.core (.notPolymorphic f' found))
  | .tlam name k body => do
    let (body', t) ← sig.elaborate (scope.pushKind name k) (expectedBody? k expected) body
    settle expected (.tlam k body') (.all k t)
  | .pack a => do
    settle expected (.pack a) (← liftCore (sig.packType a))
  | .unpack a => do
    settle expected (.unpack a) (← liftCore (sig.unpackType a))
  | .ann t type => do
    let type' ← sig.elaborateTyAt scope type .star
    let (t', _) ← sig.elaborate scope (some type') t
    settle expected t' type'

end Signature

end AddressedF
