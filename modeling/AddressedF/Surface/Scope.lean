import AddressedF.Typing.Context

/-!
# Scopes

The names that are in scope, with their kinds and types.  The innermost binder comes first.

## Main Definitions

* `Scope`: a named kind context and a named type context
* `Scope.lookupKind?`, `Scope.lookupType?`: what the innermost binder of a name binds
* `Scope.context`: the same context without names
-/

namespace AddressedF

/-- The first entry with the given name, and its position. -/
def lookupIndexed? {α : Type} (name : String) : List (String × α) → Option (Nat × α)
  | [] => none
  | (name', x) :: rest =>
    if name' = name then some (0, x) else (lookupIndexed? name rest).map fun p => (p.1 + 1, p.2)

/-- The position that is found holds what is found with it. -/
theorem getElem?_of_lookupIndexed? {α : Type} {name : String} {entries : List (String × α)} {i : Nat}
    {x : α} (h : lookupIndexed? name entries = some (i, x)) : (entries.map Prod.snd)[i]? = some x := by
  induction entries generalizing i with
  | nil => simp [lookupIndexed?] at h
  | cons entry rest ih =>
    unfold lookupIndexed? at h
    split at h
    · cases h; rfl
    · obtain ⟨p, hp, hi⟩ := Option.map_eq_some_iff.mp h
      cases hi
      simpa using ih hp

/-- The names in scope.  Type variables and term variables do not get in each other's way. -/
structure Scope where
  kinds : List (String × Kind)
  types : List (String × Binding)

namespace Scope

/-- The scope of closed terms. -/
def empty : Scope := ⟨[], []⟩

/-- The scope under a binder of a type variable. -/
def pushKind (scope : Scope) (name : String) (k : Kind) : Scope :=
  { scope with kinds := (name, k) :: scope.kinds }

/-- The scope under a binder of a term variable. -/
def pushType (scope : Scope) (name : String) (t : Ty) : Scope :=
  { scope with types := (name, ⟨t, scope.kinds.length⟩) :: scope.types }

/-- The index and the kind of a type variable. -/
def lookupKind? (scope : Scope) (name : String) : Option (Nat × Kind) :=
  lookupIndexed? name scope.kinds

/-- The index and the type of a term variable, in terms of the type variables now in scope. -/
def lookupType? (scope : Scope) (name : String) : Option (Nat × Ty) :=
  (lookupIndexed? name scope.types).map fun p => (p.1, p.2.typeAt scope.kinds.length)

/-- The context of the same variables without their names. -/
def context (scope : Scope) : Context :=
  ⟨scope.kinds.map Prod.snd, scope.types.map Prod.snd⟩

theorem context_pushKind (scope : Scope) (name : String) (k : Kind) :
    (scope.pushKind name k).context = scope.context.pushKind k := rfl

theorem context_pushType (scope : Scope) (name : String) (t : Ty) :
    (scope.pushType name t).context = scope.context.pushType t := by
  simp [context, pushType, Context.pushType]

end Scope

end AddressedF
