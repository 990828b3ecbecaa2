import AddressedF.Surface.Scope
import AddressedF.Typing.Basic

/-!
# Contexts That Are Shifted at Once

A context leaves its types as they were written and shifts one of them when it is looked up, past all the type
binders entered since.  The other way is to shift every type of the context whenever a type binder is entered.
Both ways give every variable the same type, and so do the contexts with names.

## Main Definitions

* `Binder`: a type binder or a term binder; contexts are built by going under a list of them
* `EagerContext`: contexts that are shifted at once
* `ContextForm`: what the rules of typing ask of a context
* `Signature.typeOfIn`: the rules of typing over any form of contexts

## Main Results

* `Ty.shift_shift`: one shift after another is one shift, even where both stop at the largest index
* `Signature.typeOf_eq_typeOfIn`: contexts that answer alike give terms the same types and the same errors
* `contexts_agree`: contexts and scopes that are shifted late answer like those that are shifted at once

## Design Notes

Nothing is asked of the types: they need not have a kind, and their indices may be at the end of the range, where
a shift stops.  A list of binders has the last one entered in front, which is the order of a context.
-/

namespace AddressedF

/-! ## One shift or many -/

theorem Ty.shift_shift (m n cutoff : Nat) (t : Ty) :
    (t.shift m cutoff).shift n cutoff = t.shift (m + n : Nat) cutoff := by
  induction t generalizing cutoff with
  | con | ref => rfl
  | app f a ihf iha => simp only [shift, ihf, iha]
  | all k body ih => simp only [shift, ih]
  | var i =>
    simp only [shift]
    split
    · -- an index that stopped may have come below the cutoff, but then it is the largest one
      simp only [shift]
      split
      · congr 1
        unfold shiftIndex
        omega
      · congr 1
        unfold shiftIndex at *
        omega
    · rename_i hi
      rw [shift, if_neg hi]

/-- Under one more type binder, a binding is looked up one further. -/
theorem Binding.typeAt_succ {b : Binding} {depth : Nat} (h : b.depth ≤ depth) :
    b.typeAt (depth + 1) = (b.typeAt depth).shift 1 0 := by
  have hsucc : depth + 1 - b.depth = depth - b.depth + 1 := by omega
  rw [typeAt, typeAt, if_neg (by omega), hsucc]
  split
  · rename_i heq
    rw [heq]
    rfl
  · exact (Ty.shift_shift (depth - b.depth) 1 0 b.type).symm

/-! ## Forms of contexts -/

/-- A binder of a type variable or of a term variable. -/
inductive Binder where
  | kind (k : Kind)
  | type (t : Ty)

/-- What the rules of typing ask of a context. -/
structure ContextForm (γ : Type) where
  empty : γ
  pushKind : γ → Kind → γ
  pushType : γ → Ty → γ
  kinds : γ → List Kind
  lookup? : γ → Nat → Option Ty

/-- The context under the given binders, the last one first. -/
def ContextForm.under {γ : Type} (form : ContextForm γ) : List Binder → γ
  | [] => form.empty
  | .kind k :: binders => form.pushKind (form.under binders) k
  | .type t :: binders => form.pushType (form.under binders) t

/-- Contexts that are shifted when a variable is looked up. -/
def Context.form : ContextForm Context :=
  ⟨.empty, Context.pushKind, Context.pushType, Context.kinds, Context.lookup?⟩

/-- A context whose types are written in terms of the type variables now in scope. -/
structure EagerContext where
  kinds : List Kind
  types : List Ty

namespace EagerContext

/-- The context under a binder of a type variable, past which all types are shifted. -/
def pushKind (Δ : EagerContext) (k : Kind) : EagerContext :=
  ⟨k :: Δ.kinds, Δ.types.map (·.shift 1 0)⟩

/-- The context under a binder of a term variable. -/
def pushType (Δ : EagerContext) (t : Ty) : EagerContext :=
  { Δ with types := t :: Δ.types }

/-- Contexts that are shifted at once. -/
def form : ContextForm EagerContext :=
  ⟨⟨[], []⟩, pushKind, pushType, kinds, fun Δ i => Δ.types[i]?⟩

end EagerContext

/-! ## Typing over a form of contexts -/

namespace Signature

variable {γ : Type}

/-- The type of a term, by the rules of typing over any form of contexts. -/
def typeOfIn (sig : Signature) (form : ContextForm γ) : γ → Term → Except TypeError Ty
  | Δ, .var i =>
    match form.lookup? Δ i with
    | some t => .ok t
    | none => .error (.unboundVar i)
  | _, .ref a =>
    match sig.typeAt? a with
    | some t => .ok t
    | none => .error (.undefinedTerm a)
  | Δ, .lam t body => do
    sig.checkKind (form.kinds Δ) t .star
    return .arrow t (← sig.typeOfIn form (form.pushType Δ t) body)
  | Δ, .tlam k body => do
    return .all k (← sig.typeOfIn form (form.pushKind Δ k) body)
  | Δ, .app f a => do
    let t ← sig.typeOfIn form Δ f
    match t.asArrow? with
    | some (domain, codomain) =>
      expectType a domain (← sig.typeOfIn form Δ a)
      return codomain
    | none => .error (.notFunction (.app f a) t)
  | Δ, .tapp f t => do
    match ← sig.typeOfIn form Δ f with
    | .all k body =>
      sig.checkKind (form.kinds Δ) t k
      return body.instantiate t
    | found => .error (.notPolymorphic (.tapp f t) found)
  | _, .pack a => sig.packType a
  | _, .unpack a => sig.unpackType a

end Signature

/-- Contexts in relation have the same kinds and give their variables the same types, and so they do under one
more binder. -/
structure ContextForm.Mirrors {γ : Type} (form : ContextForm γ) (related : Context → γ → Prop) : Prop where
  kinds_eq : ∀ {Γ Δ}, related Γ Δ → form.kinds Δ = Γ.kinds
  lookup?_eq : ∀ {Γ Δ}, related Γ Δ → ∀ i, form.lookup? Δ i = Γ.lookup? i
  pushKind : ∀ {Γ Δ}, related Γ Δ → ∀ k, related (Γ.pushKind k) (form.pushKind Δ k)
  pushType : ∀ {Γ Δ}, related Γ Δ → ∀ t, related (Γ.pushType t) (form.pushType Δ t)

/-- A context mirrors itself. -/
theorem Context.mirrors_form : Context.form.Mirrors Eq where
  kinds_eq h := h ▸ rfl
  lookup?_eq h _ := h ▸ rfl
  pushKind h _ := h ▸ rfl
  pushType h _ := h ▸ rfl

/-- Related contexts give a term the same type, or the same error. -/
theorem Signature.typeOf_eq_typeOfIn {γ : Type} {form : ContextForm γ} {related : Context → γ → Prop}
    (hform : form.Mirrors related) (sig : Signature) {Γ : Context} {Δ : γ} (h : related Γ Δ) (t : Term) :
    sig.typeOf Γ t = sig.typeOfIn form Δ t := by
  induction t generalizing Γ Δ with
  | ref | pack | unpack => rfl
  -- each rule is taken to the first context, where it is the rule of `typeOf` by definition
  | var i =>
    rw [typeOfIn, hform.lookup?_eq h]
    rfl
  | lam t body ih =>
    rw [typeOfIn, hform.kinds_eq h, ← ih (hform.pushType h t)]
    rfl
  | tlam k body ih =>
    rw [typeOfIn, ← ih (hform.pushKind h k)]
    rfl
  | app f a ihf iha =>
    rw [typeOfIn, ← ihf h, ← iha h]
    rfl
  | tapp f t ih =>
    rw [typeOfIn, hform.kinds_eq h, ← ih h]
    rfl

/-! ## Contexts that are shifted late and at once -/

/-- The types of the second context are those of the first one, shifted to where the context stands.  No type was
written under more type binders than there are. -/
structure Context.EagerAs (Γ : Context) (Δ : EagerContext) : Prop where
  kinds_eq : Δ.kinds = Γ.kinds
  types_eq : Δ.types = Γ.types.map (·.typeAt Γ.kinds.length)
  depth_le : ∀ b ∈ Γ.types, b.depth ≤ Γ.kinds.length

namespace Context.EagerAs

variable {Γ : Context} {Δ : EagerContext}

theorem lookup?_eq (h : Γ.EagerAs Δ) (i : Nat) : Δ.types[i]? = Γ.lookup? i := by
  rw [h.types_eq, List.getElem?_map, lookup?]

theorem pushKind (h : Γ.EagerAs Δ) (k : Kind) : (Γ.pushKind k).EagerAs (Δ.pushKind k) := by
  refine ⟨?_, ?_, fun b hb => Nat.le_succ_of_le (h.depth_le b hb)⟩
  · rw [EagerContext.pushKind, Context.pushKind, h.kinds_eq]
  · rw [EagerContext.pushKind, h.types_eq, List.map_map]
    exact List.map_congr_left fun b hb => (Binding.typeAt_succ (h.depth_le b hb)).symm

theorem pushType (h : Γ.EagerAs Δ) (t : Ty) : (Γ.pushType t).EagerAs (Δ.pushType t) := by
  refine ⟨h.kinds_eq, ?_, ?_⟩
  · rw [EagerContext.pushType, h.types_eq, Context.pushType, List.map_cons, Binding.typeAt,
      if_pos (Nat.sub_self _)]
  · intro b hb
    rcases List.mem_cons.mp hb with rfl | hb
    · exact Nat.le_refl _
    · exact h.depth_le b hb

theorem under (binders : List Binder) :
    (Context.form.under binders).EagerAs (EagerContext.form.under binders) := by
  induction binders with
  | nil => exact ⟨rfl, rfl, fun _ h => (nomatch h)⟩
  | cons binder binders ih =>
    cases binder with
    | kind k => exact ih.pushKind k
    | type t => exact ih.pushType t

end Context.EagerAs

theorem EagerContext.mirrors_form : EagerContext.form.Mirrors Context.EagerAs where
  kinds_eq h := h.kinds_eq
  lookup?_eq h := h.lookup?_eq
  pushKind h := h.pushKind
  pushType h := h.pushType

/-! ## Names -/

/-- The scope under the given binders with their names, the last one first. -/
def Scope.under : List (String × Binder) → Scope
  | [] => .empty
  | (name, .kind k) :: binders => (under binders).pushKind name k
  | (name, .type t) :: binders => (under binders).pushType name t

/-- The names of the type variables, the last one first. -/
def kindNames (binders : List (String × Binder)) : List String :=
  binders.filterMap fun
    | (name, .kind _) => some name
    | (_, .type _) => none

/-- The names of the term variables, the last one first. -/
def typeNames (binders : List (String × Binder)) : List String :=
  binders.filterMap fun
    | (_, .kind _) => none
    | (name, .type _) => some name

/-- A look-up finds the first entry of a name. -/
theorem lookupIndexed?_eq_some_iff {α : Type} {name : String} {entries : List (String × α)} {i : Nat} {x : α} :
    lookupIndexed? name entries = some (i, x) ↔
      (entries.map Prod.fst).idxOf? name = some i ∧ (entries.map Prod.snd)[i]? = some x := by
  induction entries generalizing i with
  | nil => simp [lookupIndexed?]
  | cons entry entries ih =>
    rw [lookupIndexed?, List.map_cons, List.map_cons, List.idxOf?_cons]
    by_cases hname : entry.1 = name
    · cases i <;> simp [hname, eq_comm]
    · cases i <;> simp [hname, Option.map_eq_some_iff, ih]

namespace Scope

theorem context_under (binders : List (String × Binder)) :
    (under binders).context = Context.form.under (binders.map Prod.snd) := by
  induction binders with
  | nil => rfl
  | cons binder binders ih =>
    rcases binder with ⟨name, k | t⟩
    · rw [under, context_pushKind, ih]
      rfl
    · rw [under, context_pushType, ih]
      rfl

theorem names_under (binders : List (String × Binder)) :
    (under binders).kinds.map Prod.fst = kindNames binders ∧
      (under binders).types.map Prod.fst = typeNames binders := by
  induction binders with
  | nil => exact ⟨rfl, rfl⟩
  | cons binder binders ih =>
    obtain ⟨hkinds, htypes⟩ := ih
    rcases binder with ⟨name, k | t⟩
    · exact ⟨congrArg (name :: ·) hkinds, htypes⟩
    · exact ⟨hkinds, congrArg (name :: ·) htypes⟩

/-- A term variable is looked up at the position of its name and with its type there. -/
theorem lookupType?_eq_some_iff {scope : Scope} {name : String} {i : Nat} {t : Ty} :
    scope.lookupType? name = some (i, t) ↔
      (scope.types.map Prod.fst).idxOf? name = some i ∧ scope.context.lookup? i = some t := by
  rw [lookupType?, Context.lookup?, context, List.length_map, Option.map_eq_some_iff, Option.map_eq_some_iff]
  constructor
  · rintro ⟨⟨i', b⟩, hfound, heq⟩
    cases heq
    obtain ⟨hi, hb⟩ := lookupIndexed?_eq_some_iff.mp hfound
    exact ⟨hi, b, hb, rfl⟩
  · rintro ⟨hi, b, hb, rfl⟩
    exact ⟨(i, b), lookupIndexed?_eq_some_iff.mpr ⟨hi, hb⟩, rfl⟩

end Scope

/-! ## Agreement -/

/-- A context that is built under any binders gives each variable the type that it has if all types are shifted
with every type binder, and gives nothing to a variable that nothing binds; no type of it was written under more
type binders than there are.  So the rules of typing, which are the same for both, have the same result for every
term.  A scope finds the last binder of a name, at its position and with that same type, or with its kind. -/
theorem contexts_agree :
    (∀ sig Γ t, sig.typeOfIn Context.form Γ t = Signature.typeOf sig Γ t) ∧
    (∀ binders : List Binder,
      let Γ := Context.form.under binders
      let eager := EagerContext.form.under binders
      (∀ b ∈ Γ.types, b.depth ≤ Γ.kinds.length) ∧
      (∀ i, Γ.lookup? i = eager.types[i]?) ∧
      ∀ sig t, Signature.typeOf sig Γ t = sig.typeOfIn EagerContext.form eager t) ∧
    ∀ binders : List (String × Binder),
      let scope := Scope.under binders
      let eager := EagerContext.form.under (binders.map Prod.snd)
      (∀ b ∈ scope.types, b.2.depth ≤ scope.kinds.length) ∧
      (∀ name i t, scope.lookupType? name = some (i, t) ↔
        (typeNames binders).idxOf? name = some i ∧ eager.types[i]? = some t) ∧
      ∀ name i k, scope.lookupKind? name = some (i, k) ↔
        (kindNames binders).idxOf? name = some i ∧ eager.kinds[i]? = some k := by
  refine ⟨fun sig Γ t => (sig.typeOf_eq_typeOfIn Context.mirrors_form rfl t).symm, ?_, ?_⟩
  · intro binders Γ eager
    have h : Γ.EagerAs eager := .under binders
    exact ⟨h.depth_le, fun i => (h.lookup?_eq i).symm,
      fun sig t => sig.typeOf_eq_typeOfIn EagerContext.mirrors_form h t⟩
  · intro binders scope eager
    have h : scope.context.EagerAs eager := Scope.context_under binders ▸ .under _
    obtain ⟨hkinds, htypes⟩ := Scope.names_under binders
    refine ⟨?_, ?_, ?_⟩
    · intro b hb
      have hdepth := h.depth_le b.2 (List.mem_map_of_mem hb)
      rwa [Scope.context, List.length_map] at hdepth
    · intro name i t
      rw [Scope.lookupType?_eq_some_iff, htypes, h.lookup?_eq]
    · intro name i k
      rw [Scope.lookupKind?, lookupIndexed?_eq_some_iff, hkinds, h.kinds_eq]
      rfl

/-- Both names are bound twice, and two type binders are entered after the second binder of the term variable.
One of the variables in its type is past the end of the range when it is shifted twice, and stops there. -/
theorem contexts_agree_shadowed :
    let type := Ty.app (.var 0) (.var (maxIndex - 1))
    let shifted := Ty.app (.var 2) (.var maxIndex)
    let binders : List (String × Binder) :=
      [("s", .kind .star), ("r", .kind .star), ("x", .type type), ("s", .kind (.arrow .star .star)),
        ("x", .type .byte)]
    let scope := Scope.under binders
    let Γ := Context.form.under (binders.map Prod.snd)
    let eager := EagerContext.form.under (binders.map Prod.snd)
    (⟨type, 1⟩ ∈ Γ.types ∧ eager.types = [shifted, .byte]) ∧
    1 ≤ Γ.kinds.length ∧ Γ.lookup? 0 = some shifted ∧
    scope.lookupType? "x" = some (0, shifted) ∧ scope.lookupKind? "s" = some (0, .star) := by
  intro type shifted binders scope Γ eager
  obtain ⟨-, hcontexts, hscopes⟩ := contexts_agree
  obtain ⟨hdepth, hlookup, -⟩ := hcontexts (binders.map Prod.snd)
  obtain ⟨-, htype, hkind⟩ := hscopes binders
  have hmem : (⟨type, 1⟩ : Binding) ∈ Γ.types := .head _
  have htypes : eager.types = [shifted, .byte] := by decide
  have hfirst : eager.types[0]? = some shifted := by rw [htypes]; rfl
  exact ⟨⟨hmem, htypes⟩, hdepth _ hmem, (hlookup 0).trans hfirst,
    (htype "x" 0 shifted).mpr ⟨by decide, hfirst⟩, (hkind "s" 0 .star).mpr ⟨by decide, rfl⟩⟩

end AddressedF
