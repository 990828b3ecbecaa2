import AddressedF.Surface.Scope
import AddressedF.Surface.Term
import AddressedF.Term.Basic
import Mathlib.Data.List.Basic

/-!
# Types and Terms Without Names

What a named type or term denotes in the core calculus, by its binders alone.  A name stands for its distance
to the innermost binder of that name, where type variables and term variables are counted apart.  Kinds and
types play no part in it.

## Main Definitions

* `Surface.Ty.nameless?`, `Surface.Term.nameless?`: the core type and the core term with indices for names
* `Surface.Term.IsAnnotated`: every parameter comes with its type, and nothing else does
* `Surface.Ty.NamesBound`, `Surface.Term.NamesBound`: every name has a binder

## Main Results

* `Surface.Term.nameless?_eq_some_iff`: the terms that denote a core term
* `lookupIndexed?_of_idxOf?`: a scope binds a name at the distance to its innermost binder
-/

namespace AddressedF

/-! ## Named types -/

namespace Surface.Ty

/-- The core type of a named type under binders of the given names, the innermost first. -/
def nameless? (kinds : List String) : Ty → Option AddressedF.Ty
  | con c => some (.con c)
  | ref address => some (.ref address)
  | var name => (kinds.idxOf? name).map .var
  | app f a => do return .app (← f.nameless? kinds) (← a.nameless? kinds)
  | all name k body => do return .all k (← body.nameless? (name :: kinds))

/-- Every name of a type is one of the given ones or has a binder in the type. -/
def NamesBound (kinds : List String) : Ty → Prop
  | con _ | ref _ => True
  | var name => name ∈ kinds
  | app f a => f.NamesBound kinds ∧ a.NamesBound kinds
  | all name _ body => body.NamesBound (name :: kinds)

variable {kinds : List String} {c : AddressedF.Ty}

theorem nameless?_var_iff {name : String} :
    (var name).nameless? kinds = some c ↔ ∃ i, kinds.idxOf? name = some i ∧ .var i = c := by
  rw [nameless?, Option.map_eq_some_iff]

theorem nameless?_app_iff {f a : Ty} :
    (app f a).nameless? kinds = some c ↔
      ∃ f' a', f.nameless? kinds = some f' ∧ a.nameless? kinds = some a' ∧ .app f' a' = c := by
  simp [nameless?, Option.bind_eq_some_iff]

theorem nameless?_all_iff {name : String} {k : Kind} {body : Ty} :
    (all name k body).nameless? kinds = some c ↔
      ∃ body', body.nameless? (name :: kinds) = some body' ∧ .all k body' = c := by
  simp [nameless?, Option.bind_eq_some_iff]

/-- A type denotes a core type if its names are bound. -/
theorem nameless?_eq_some_iff {t : Ty} : (∃ c, t.nameless? kinds = some c) ↔ t.NamesBound kinds := by
  induction t generalizing kinds with
  | con c => exact iff_of_true ⟨_, rfl⟩ trivial
  | ref address => exact iff_of_true ⟨_, rfl⟩ trivial
  | var name =>
    rw [NamesBound, ← List.isSome_idxOf?]
    simp [nameless?_var_iff, Option.isSome_iff_exists]
  | app f a ihf iha =>
    rw [NamesBound, ← ihf, ← iha]
    simp [nameless?_app_iff]
  | all name k body ih =>
    rw [NamesBound, ← ih]
    simp [nameless?_all_iff]

end Surface.Ty

/-! ## Named terms -/

namespace Surface.Term

/-- The core term of a named term under binders of the given names of type variables and of term variables.
There is none for an annotation or for a parameter without a type, which the core calculus does not have. -/
def nameless? (kinds types : List String) : Term → Option AddressedF.Term
  | ref address => some (.ref address)
  | var name => (types.idxOf? name).map .var
  | app f a => do return .app (← f.nameless? kinds types) (← a.nameless? kinds types)
  | lam name (some t) body => do
    return .lam (← t.nameless? kinds) (← body.nameless? kinds (name :: types))
  | lam _ none _ => none
  | tapp f t => do return .tapp (← f.nameless? kinds types) (← t.nameless? kinds)
  | tlam name k body => do return .tlam k (← body.nameless? (name :: kinds) types)
  | pack address => some (.pack address)
  | unpack address => some (.unpack address)
  | ann _ _ => none

/-- Every parameter of a function has a type, and no other part of the term has one. -/
def IsAnnotated : Term → Prop
  | ref _ | var _ | pack _ | unpack _ => True
  | app f a => f.IsAnnotated ∧ a.IsAnnotated
  | lam _ (some _) body | tlam _ _ body => body.IsAnnotated
  | tapp f _ => f.IsAnnotated
  | lam _ none _ | ann _ _ => False

/-- Every name of a term is one of the given ones or has a binder in the term, of a type variable or of a term
variable as it is used. -/
def NamesBound (kinds types : List String) : Term → Prop
  | ref _ | pack _ | unpack _ => True
  | var name => name ∈ types
  | app f a => f.NamesBound kinds types ∧ a.NamesBound kinds types
  | lam name (some t) body => t.NamesBound kinds ∧ body.NamesBound kinds (name :: types)
  | lam name none body => body.NamesBound kinds (name :: types)
  | tapp f t => f.NamesBound kinds types ∧ t.NamesBound kinds
  | tlam name _ body => body.NamesBound (name :: kinds) types
  | ann t type => t.NamesBound kinds types ∧ type.NamesBound kinds

variable {kinds types : List String} {c : AddressedF.Term}

section

attribute [local simp] nameless?

theorem nameless?_var_iff {name : String} :
    (var name).nameless? kinds types = some c ↔ ∃ i, types.idxOf? name = some i ∧ .var i = c := by
  rw [nameless?, Option.map_eq_some_iff]

theorem nameless?_app_iff {f a : Term} :
    (app f a).nameless? kinds types = some c ↔
      ∃ f' a', f.nameless? kinds types = some f' ∧ a.nameless? kinds types = some a' ∧
        .app f' a' = c := by
  simp [nameless?, Option.bind_eq_some_iff]

theorem nameless?_lam_iff {name : String} {t : Ty} {body : Term} :
    (lam name (some t) body).nameless? kinds types = some c ↔
      ∃ t' body', t.nameless? kinds = some t' ∧ body.nameless? kinds (name :: types) = some body' ∧
        .lam t' body' = c := by
  simp [nameless?, Option.bind_eq_some_iff]

theorem nameless?_tapp_iff {f : Term} {t : Ty} :
    (tapp f t).nameless? kinds types = some c ↔
      ∃ f' t', f.nameless? kinds types = some f' ∧ t.nameless? kinds = some t' ∧ .tapp f' t' = c := by
  simp [nameless?, Option.bind_eq_some_iff]

theorem nameless?_tlam_iff {name : String} {k : Kind} {body : Term} :
    (tlam name k body).nameless? kinds types = some c ↔
      ∃ body', body.nameless? (name :: kinds) types = some body' ∧ .tlam k body' = c := by
  simp [nameless?, Option.bind_eq_some_iff]

end

/-- A term denotes a core term if exactly its parameters are annotated and its names are bound. -/
theorem nameless?_eq_some_iff {t : Term} :
    (∃ c, t.nameless? kinds types = some c) ↔ t.IsAnnotated ∧ t.NamesBound kinds types := by
  induction t generalizing kinds types with
  | ref address => exact iff_of_true ⟨_, rfl⟩ ⟨trivial, trivial⟩
  | pack address => exact iff_of_true ⟨_, rfl⟩ ⟨trivial, trivial⟩
  | unpack address => exact iff_of_true ⟨_, rfl⟩ ⟨trivial, trivial⟩
  | var name =>
    rw [NamesBound, ← List.isSome_idxOf?]
    simp [IsAnnotated, nameless?_var_iff, Option.isSome_iff_exists]
  | app f a ihf iha =>
    rw [IsAnnotated, NamesBound, and_and_and_comm, ← ihf, ← iha]
    simp [nameless?_app_iff]
  | lam name domain body ih =>
    cases domain with
    | some t =>
      rw [IsAnnotated, NamesBound, and_left_comm, ← ih, ← Ty.nameless?_eq_some_iff]
      simp [nameless?_lam_iff]
    | none => simp [nameless?, IsAnnotated]
  | tapp f t ih =>
    rw [IsAnnotated, NamesBound, ← and_assoc, ← ih, ← Ty.nameless?_eq_some_iff]
    simp [nameless?_tapp_iff]
  | tlam name k body ih =>
    rw [IsAnnotated, NamesBound, ← ih]
    simp [nameless?_tlam_iff]
  | ann t type => simp [nameless?, IsAnnotated]

end Surface.Term

/-! ## Names in a scope -/

/-- The entry of the innermost binder is the one at its distance. -/
theorem lookupIndexed?_of_idxOf? {α : Type} {name : String} {entries : List (String × α)} {i : Nat}
    (h : (entries.map Prod.fst).idxOf? name = some i) :
    ∃ x, lookupIndexed? name entries = some (i, x) := by
  induction entries generalizing i with
  | nil => cases h
  | cons entry rest ih =>
    rw [List.map_cons, List.idxOf?_cons] at h
    rw [lookupIndexed?]
    by_cases hname : entry.1 = name
    · rw [if_pos (beq_iff_eq.mpr hname)] at h
      cases h
      exact ⟨entry.2, if_pos hname⟩
    · rw [if_neg (by simpa using hname)] at h
      obtain ⟨j, hj, rfl⟩ := Option.map_eq_some_iff.mp h
      obtain ⟨x, hx⟩ := ih hj
      exact ⟨x, by rw [if_neg hname, hx, Option.map_some]⟩

end AddressedF
