import AddressedF.CountedList
import AddressedF.Proofs.EagerContext

/-!
# Contexts of Counted Lists

A context can keep its entries in lists that carry their length.  The number of type binders is then read off the
first cell when a term binder is entered and when a variable is looked up.  Such contexts and scopes answer like
those of plain lists.

## Main Definitions

* `CountedContext`: contexts whose entries are kept in counted lists
* `Context.CountedAs`: the entries of a context, kept in counted lists

## Main Results

* `Signature.typeOf_eq_typeOfIn_counted`: the rules of typing have the same results over both
* `lookupIndexed?_toList`: the first entry of a name is the first one that is found in a counted list
-/

namespace AddressedF

/-- A context whose entries are kept in lists that carry their length. -/
structure CountedContext where
  kinds : CountedList Kind
  types : CountedList Binding

namespace CountedContext

/-- The context of closed terms. -/
def empty : CountedContext := ⟨.nil, .nil⟩

/-- The context under a binder of a type variable. -/
def pushKind (Δ : CountedContext) (k : Kind) : CountedContext :=
  { Δ with kinds := Δ.kinds.push k }

/-- The context under a binder of a term variable. -/
def pushType (Δ : CountedContext) (t : Ty) : CountedContext :=
  { Δ with types := Δ.types.push ⟨t, Δ.kinds.length⟩ }

/-- The type of a term variable, in terms of the type variables now in scope. -/
def lookup? (Δ : CountedContext) (i : Nat) : Option Ty :=
  (Δ.types.get? i).map (·.typeAt Δ.kinds.length)

/-- Contexts of counted lists. -/
def form : ContextForm CountedContext :=
  ⟨empty, pushKind, pushType, fun Δ => Δ.kinds.toList, lookup?⟩

end CountedContext

/-- The second context has the entries of the first one, in lists that carry the right lengths. -/
structure Context.CountedAs (Γ : Context) (Δ : CountedContext) : Prop where
  kinds_eq : Δ.kinds.toList = Γ.kinds
  types_eq : Δ.types.toList = Γ.types
  kinds_counted : Δ.kinds.Counted
  types_counted : Δ.types.Counted

namespace Context.CountedAs

variable {Γ : Context} {Δ : CountedContext}

theorem length_eq (h : Γ.CountedAs Δ) : Δ.kinds.length = Γ.kinds.length := by
  rw [h.kinds_counted.length_eq, h.kinds_eq]

theorem lookup?_eq (h : Γ.CountedAs Δ) (i : Nat) : Δ.lookup? i = Γ.lookup? i := by
  rw [CountedContext.lookup?, Context.lookup?, h.types_counted.get?_eq, h.types_eq, h.length_eq]

theorem pushKind (h : Γ.CountedAs Δ) (k : Kind) : (Γ.pushKind k).CountedAs (Δ.pushKind k) :=
  ⟨congrArg (k :: ·) h.kinds_eq, h.types_eq, h.kinds_counted.push k, h.types_counted⟩

theorem pushType (h : Γ.CountedAs Δ) (t : Ty) : (Γ.pushType t).CountedAs (Δ.pushType t) := by
  refine ⟨h.kinds_eq, ?_, h.kinds_counted, h.types_counted.push _⟩
  rw [CountedContext.pushType, Context.pushType, CountedList.toList_push, h.length_eq, h.types_eq]

theorem under (binders : List Binder) :
    (Context.form.under binders).CountedAs (CountedContext.form.under binders) := by
  induction binders with
  | nil => exact ⟨rfl, rfl, .nil, .nil⟩
  | cons binder binders ih =>
    cases binder with
    | kind k => exact ih.pushKind k
    | type t => exact ih.pushType t

end Context.CountedAs

theorem CountedContext.mirrors_form : CountedContext.form.Mirrors Context.CountedAs where
  kinds_eq h := h.kinds_eq
  lookup?_eq h := h.lookup?_eq
  pushKind h := h.pushKind
  pushType h := h.pushType

/-- Under any binders, contexts of counted lists give a term the type or the error that plain contexts give it. -/
theorem Signature.typeOf_eq_typeOfIn_counted (sig : Signature) (binders : List Binder) (t : Term) :
    sig.typeOf (Context.form.under binders) t =
      sig.typeOfIn CountedContext.form (CountedContext.form.under binders) t :=
  sig.typeOf_eq_typeOfIn CountedContext.mirrors_form (.under binders) t

/-- A name is looked up by the first entry with that name. -/
theorem lookupIndexed?_toList {α : Type} (name : String) (l : CountedList (String × α)) :
    lookupIndexed? name l.toList =
      (l.find? fun entry => entry.1 = name).map fun found => (found.1, found.2.2) := by
  induction l with
  | nil => rfl
  | cons entry l n ih =>
    rw [CountedList.toList, lookupIndexed?, CountedList.find?, ih]
    by_cases h : entry.1 = name
    · simp [h]
    · simp [h, Function.comp_def]

end AddressedF
