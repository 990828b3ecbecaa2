import AddressedF.Surface.Elaboration
import Mathlib.Data.List.Basic

/-!
# Bound Names Do Not Matter

Named types, definitions and terms that differ in nothing but the names of their binders are elaborated alike: to
the same core type or term, or not at all and for the same reason.  An error that shows a part of the term shows
it as it is written, so there the names may differ, and nowhere else.

## Main Definitions

* `Surface.SameVariable`: two names that mean the same under pairs of binders
* `Surface.Ty.AlphaEq`, `Surface.TypeDef.AlphaEq`, `Surface.Term.AlphaEq`: equality up to the names of binders
* `ElaborationError.AlphaEq`: equality up to the names of binders in the term that is shown
* `Scope.Renamed`: two scopes under pairs of binders

## Main Results

* `RenamedEntries.lookupIndexed?_eq`: names that mean the same have the same entry at the same position
* `Signature.elaborateTy_congr`, `Signature.alike_elaborate`: elaboration under pairs of binders
* `Signature.elaboration_alphaEq`: elaboration in any scope

## Design Notes

The binders that have been entered are kept as pairs, one name from each side, the innermost pair first.  Names of
types and names of terms have pairs of their own, since they do not get in each other's way.  A name may be
shadowed on one side and not on the other: what counts is the first pair that has it on its own side.

An elaboration with an error goes on to elaborate an argument only to report more of the term.  Whether that
succeeds does not depend on names either, so both sides report the same.
-/

namespace AddressedF

/-! ## Equality up to the names of binders -/

namespace Surface

/-- Two names mean the same under pairs of binders.  Each of them is bound by its own side of one and the same
pair, the innermost that has it; or no pair has either of them, and they are the same free name. -/
inductive SameVariable : List (String × String) → String → String → Prop where
  | free (name : String) : SameVariable [] name name
  | bound (name name' : String) (pairs : List (String × String)) :
    SameVariable ((name, name') :: pairs) name name'
  | outer {pairs : List (String × String)} {binder binder' name name' : String} :
    binder ≠ name → binder' ≠ name' → SameVariable pairs name name' →
      SameVariable ((binder, binder') :: pairs) name name'

/-- Two types are equal up to the names of their quantifiers, under pairs of binders. -/
inductive Ty.AlphaEq : List (String × String) → Ty → Ty → Prop where
  | con {kinds : List (String × String)} (c : TyCon) : AlphaEq kinds (.con c) (.con c)
  | ref {kinds : List (String × String)} (address : Address) : AlphaEq kinds (.ref address) (.ref address)
  | var {kinds : List (String × String)} {name name' : String} :
    SameVariable kinds name name' → AlphaEq kinds (.var name) (.var name')
  | app {kinds : List (String × String)} {f f' a a' : Ty} :
    AlphaEq kinds f f' → AlphaEq kinds a a' → AlphaEq kinds (.app f a) (.app f' a')
  | all {kinds : List (String × String)} {name name' : String} {k : Kind} {body body' : Ty} :
    AlphaEq ((name, name') :: kinds) body body' → AlphaEq kinds (.all name k body) (.all name' k body')

/-- Two definitions are equal up to the names of their parameters and quantifiers.  The last parameter is the
innermost binder. -/
structure TypeDef.AlphaEq (d d' : TypeDef) : Prop where
  kinds_eq : d.params.map Prod.snd = d'.params.map Prod.snd
  body : d.body.AlphaEq ((d.params.map Prod.fst).zip (d'.params.map Prod.fst)).reverse d'.body

/-- Two terms are equal up to the names of their functions, type abstractions and quantifiers, under pairs of
binders of types and pairs of binders of terms. -/
inductive Term.AlphaEq : List (String × String) → List (String × String) → Term → Term → Prop where
  | ref {kinds types : List (String × String)} (address : Address) :
    AlphaEq kinds types (.ref address) (.ref address)
  | pack {kinds types : List (String × String)} (address : Address) :
    AlphaEq kinds types (.pack address) (.pack address)
  | unpack {kinds types : List (String × String)} (address : Address) :
    AlphaEq kinds types (.unpack address) (.unpack address)
  | var {kinds types : List (String × String)} {name name' : String} :
    SameVariable types name name' → AlphaEq kinds types (.var name) (.var name')
  | app {kinds types : List (String × String)} {f f' a a' : Term} :
    AlphaEq kinds types f f' → AlphaEq kinds types a a' → AlphaEq kinds types (.app f a) (.app f' a')
  /-- A function with a parameter type. -/
  | lam {kinds types : List (String × String)} {name name' : String} {t t' : Ty} {body body' : Term} :
    t.AlphaEq kinds t' → AlphaEq kinds ((name, name') :: types) body body' →
      AlphaEq kinds types (.lam name (some t) body) (.lam name' (some t') body')
  /-- A function without a parameter type. -/
  | lamNone {kinds types : List (String × String)} {name name' : String} {body body' : Term} :
    AlphaEq kinds ((name, name') :: types) body body' →
      AlphaEq kinds types (.lam name none body) (.lam name' none body')
  | tapp {kinds types : List (String × String)} {f f' : Term} {t t' : Ty} :
    AlphaEq kinds types f f' → t.AlphaEq kinds t' → AlphaEq kinds types (.tapp f t) (.tapp f' t')
  | tlam {kinds types : List (String × String)} {name name' : String} {k : Kind} {body body' : Term} :
    AlphaEq ((name, name') :: kinds) types body body' →
      AlphaEq kinds types (.tlam name k body) (.tlam name' k body')
  | ann {kinds types : List (String × String)} {t t' : Term} {type type' : Ty} :
    AlphaEq kinds types t t' → type.AlphaEq kinds type' → AlphaEq kinds types (.ann t type) (.ann t' type')

end Surface

/-- Two errors are equal up to the names of binders in the function that is shown, wherever in a term that
stands. -/
inductive ElaborationError.AlphaEq : ElaborationError → ElaborationError → Prop where
  | refl (e : ElaborationError) : AlphaEq e e
  | unknownDomain {kinds types : List (String × String)} {s s' : Surface.Term} :
    s.AlphaEq kinds types s' → AlphaEq (.unknownDomain s) (.unknownDomain s')
  | unexpectedFunction {kinds types : List (String × String)} {s s' : Surface.Term} (expected : Ty) :
    s.AlphaEq kinds types s' → AlphaEq (.unexpectedFunction s expected) (.unexpectedFunction s' expected)

/-- Two elaborations have the same result, or both fail with errors that are equal up to the names of binders. -/
inductive Alike {α : Type} : Except ElaborationError α → Except ElaborationError α → Prop where
  | ok (a : α) : Alike (.ok a) (.ok a)
  | error {e e' : ElaborationError} : e.AlphaEq e' → Alike (.error e) (.error e')

namespace Alike

variable {α β : Type} {x y : Except ElaborationError α} {f g : α → Except ElaborationError β}

theorem refl (x : Except ElaborationError α) : Alike x x := by
  cases x with
  | ok a => exact .ok a
  | error e => exact .error (.refl e)

theorem bind (h : Alike x y) (hf : ∀ a, Alike (f a) (g a)) : Alike (x >>= f) (y >>= g) := by
  cases h with
  | ok a => exact hf a
  | error he => exact .error he

theorem eq_ok_iff (h : Alike x y) {a : α} : x = .ok a ↔ y = .ok a := by
  cases h with
  | ok b => exact Iff.rfl
  | error he => simp

theorem exists_of_error (h : Alike x y) {e : ElaborationError} (he : x = .error e) :
    ∃ e', y = .error e' ∧ e.AlphaEq e' := by
  cases h with
  | ok b => cases he
  | error halpha =>
    cases he
    exact ⟨_, rfl, halpha⟩

end Alike

/-! ## Names in scopes -/

/-- Two lists of entries that have come from a common one by adding the same values, on one side under the first
names of the pairs and on the other side under the second ones. -/
inductive RenamedEntries {α : Type} (common : List (String × α)) :
    List (String × String) → List (String × α) → List (String × α) → Prop where
  | refl : RenamedEntries common [] common common
  | cons {pairs : List (String × String)} {entries entries' : List (String × α)} (name name' : String) (x : α) :
    RenamedEntries common pairs entries entries' →
      RenamedEntries common ((name, name') :: pairs) ((name, x) :: entries) ((name', x) :: entries')

namespace RenamedEntries

open Surface (SameVariable)

variable {α : Type} {common entries entries' : List (String × α)} {pairs : List (String × String)}
  {name name' : String}

theorem length_eq (h : RenamedEntries common pairs entries entries') : entries.length = entries'.length := by
  induction h with
  | refl => rfl
  | cons name name' x _ ih => rw [List.length_cons, List.length_cons, ih]

/-- Names that mean the same have the same entry, at the same position. -/
theorem lookupIndexed?_eq (h : RenamedEntries common pairs entries entries')
    (hname : SameVariable pairs name name') : lookupIndexed? name entries = lookupIndexed? name' entries' := by
  induction h with
  | refl =>
    cases hname
    rfl
  | cons binder binder' x _ ih =>
    rw [lookupIndexed?, lookupIndexed?]
    cases hname with
    | bound => rw [if_pos rfl, if_pos rfl]
    | outer hne hne' hname => rw [if_neg hne, if_neg hne', ih hname]

/-- Names that mean the same and have no entry are the same. -/
theorem eq_of_lookupIndexed?_eq_none (h : RenamedEntries common pairs entries entries')
    (hname : SameVariable pairs name name') (hnone : lookupIndexed? name entries = none) : name = name' := by
  induction h with
  | refl =>
    cases hname
    rfl
  | cons binder binder' x _ ih =>
    rw [lookupIndexed?] at hnone
    cases hname with
    | bound =>
      rw [if_pos rfl] at hnone
      cases hnone
    | outer hne _ hname =>
      rw [if_neg hne] at hnone
      exact ih hname (Option.map_eq_none_iff.mp hnone)

end RenamedEntries

/-- Two scopes that have come from a common one by entering the pairs of binders. -/
structure Scope.Renamed (common : Scope) (kinds types : List (String × String)) (scope scope' : Scope) :
    Prop where
  kinds : RenamedEntries common.kinds kinds scope.kinds scope'.kinds
  types : RenamedEntries common.types types scope.types scope'.types

namespace Scope.Renamed

variable {common scope scope' : Scope} {kinds types : List (String × String)} {name name' : String}

theorem refl (scope : Scope) : scope.Renamed [] [] scope scope :=
  ⟨.refl, .refl⟩

theorem pushKind (h : common.Renamed kinds types scope scope') (name name' : String) (k : Kind) :
    common.Renamed ((name, name') :: kinds) types (scope.pushKind name k) (scope'.pushKind name' k) :=
  ⟨h.kinds.cons name name' k, h.types⟩

/-- A type that is entered remembers the number of type binders, which is the same on both sides. -/
theorem pushType (h : common.Renamed kinds types scope scope') (name name' : String) (T : Ty) :
    common.Renamed kinds ((name, name') :: types) (scope.pushType name T) (scope'.pushType name' T) := by
  refine ⟨h.kinds, ?_⟩
  rw [Scope.pushType, Scope.pushType, h.kinds.length_eq]
  exact h.types.cons name name' _

theorem lookupKind?_eq (h : common.Renamed kinds types scope scope')
    (hname : Surface.SameVariable kinds name name') : scope.lookupKind? name = scope'.lookupKind? name' :=
  h.kinds.lookupIndexed?_eq hname

theorem lookupType?_eq (h : common.Renamed kinds types scope scope')
    (hname : Surface.SameVariable types name name') : scope.lookupType? name = scope'.lookupType? name' := by
  rw [lookupType?, lookupType?, h.types.lookupIndexed?_eq hname, h.kinds.length_eq]

/-- The parameters of a definition come into scope from the first. -/
theorem foldl_pushKind {params params' : List (String × Kind)} (h : common.Renamed kinds types scope scope')
    (hparams : params.map Prod.snd = params'.map Prod.snd) :
    common.Renamed (((params.map Prod.fst).zip (params'.map Prod.fst)).reverse ++ kinds) types
      (params.foldl (fun scope p => scope.pushKind p.1 p.2) scope)
      (params'.foldl (fun scope p => scope.pushKind p.1 p.2) scope') := by
  induction params generalizing params' kinds scope scope' with
  | nil =>
    cases params' with
    | nil => exact h
    | cons p' params' => cases hparams
  | cons p params ih =>
    cases params' with
    | nil => cases hparams
    | cons p' params' =>
      obtain ⟨name, k⟩ := p
      obtain ⟨name', k'⟩ := p'
      obtain ⟨rfl, hrest⟩ := List.cons.inj hparams
      simpa using ih (h.pushKind name name' k) hrest

end Scope.Renamed

namespace Signature

variable {sig : Signature} {common scope scope' : Scope} {kinds types : List (String × String)}

/-! ## Types -/

/-- Types that are equal up to the names of binders have the same core type and kind, or the same error. -/
theorem elaborateTy_congr {s s' : Surface.Ty} (h : s.AlphaEq kinds s')
    (hscope : common.Renamed kinds types scope scope') :
    sig.elaborateTy scope s = sig.elaborateTy scope' s' := by
  induction h generalizing scope scope' with
  | con | ref => rfl
  | @var _ name name' hname =>
    rw [elaborateTy, elaborateTy, ← hscope.lookupKind?_eq hname]
    cases hlookup : scope.lookupKind? name with
    | some p => rfl
    | none => rw [hscope.kinds.eq_of_lookupIndexed?_eq_none hname hlookup]
  | app _ _ ihf iha => rw [elaborateTy, elaborateTy, ihf hscope, iha hscope]
  | all _ ih => rw [elaborateTy, elaborateTy, ih (hscope.pushKind _ _ _)]

theorem elaborateTyAt_congr {s s' : Surface.Ty} (h : s.AlphaEq kinds s')
    (hscope : common.Renamed kinds types scope scope') (k : Kind) :
    sig.elaborateTyAt scope s k = sig.elaborateTyAt scope' s' k := by
  rw [elaborateTyAt, elaborateTyAt, elaborateTy_congr h hscope]

/-- Definitions that are equal up to the names of binders have the same core definition and kind, or the same
error. -/
theorem elaborateDef_congr {d d' : Surface.TypeDef} (h : d.AlphaEq d') :
    sig.elaborateDef d = sig.elaborateDef d' := by
  have hscope := (Scope.Renamed.refl .empty).foldl_pushKind h.kinds_eq
  rw [List.append_nil] at hscope
  rw [elaborateDef, elaborateDef, elaborateTyAt_congr h.body hscope, h.kinds_eq]

/-! ## Terms -/

/-- Terms that are equal up to the names of binders are elaborated alike. -/
theorem alike_elaborate {s s' : Surface.Term} {expected : Option Ty} (h : s.AlphaEq kinds types s')
    (hscope : common.Renamed kinds types scope scope') :
    Alike (sig.elaborate scope expected s) (sig.elaborate scope' expected s') := by
  induction h generalizing scope scope' expected with
  | ref | pack | unpack => exact .refl _
  | @var _ _ name name' hname =>
    rw [elaborate, elaborate, ← hscope.lookupType?_eq hname]
    cases hlookup : scope.lookupType? name with
    | some p => exact .refl _
    | none =>
      rw [hscope.types.eq_of_lookupIndexed?_eq_none hname (Option.map_eq_none_iff.mp hlookup)]
      exact .refl _
  | @app _ _ f f' a a' _ _ ihf iha =>
    rw [elaborate, elaborate]
    refine (ihf hscope).bind fun p => ?_
    obtain ⟨c, T⟩ := p
    dsimp only
    cases T.asArrow? with
    | some p => exact (iha hscope).bind fun _ => .refl _
    | none =>
      -- the argument counts only as far as it can be elaborated at all
      have ha : Alike (sig.elaborate scope none a) (sig.elaborate scope' none a') := iha hscope
      cases hresult : sig.elaborate scope none a with
      | ok p =>
        rw [ha.eq_ok_iff.mp hresult]
        exact .refl _
      | error e =>
        obtain ⟨e', he', -⟩ := ha.exists_of_error hresult
        rw [he']
        exact .refl _
  | lam ht _ ih =>
    rw [elaborate, elaborate, elaborateTyAt_congr ht hscope]
    refine (Alike.refl _).bind fun A => ?_
    exact (ih (hscope.pushType _ _ A)).bind fun _ => .refl _
  | lamNone hbody ih =>
    rw [elaborate.eq_def, elaborate.eq_def]
    dsimp only
    cases expected with
    | none => exact .error (.unknownDomain (.lamNone hbody))
    | some E =>
      dsimp only
      cases E.asArrow? with
      | some p => exact (ih (hscope.pushType _ _ p.1)).bind fun _ => .refl _
      | none => exact .error (.unexpectedFunction E (.lamNone hbody))
  | tapp _ ht ih =>
    rw [elaborate, elaborate]
    refine (ih hscope).bind fun p => ?_
    obtain ⟨c, T⟩ := p
    dsimp only
    cases T with
    | all k body =>
      dsimp only
      rw [elaborateTyAt_congr ht hscope]
      exact .refl _
    | _ =>
      dsimp only
      rw [elaborateTy_congr ht hscope]
      exact .refl _
  | tlam _ ih =>
    rw [elaborate, elaborate]
    exact (ih (hscope.pushKind _ _ _)).bind fun _ => .refl _
  | ann _ htype ih =>
    rw [elaborate, elaborate, elaborateTyAt_congr htype hscope]
    refine (Alike.refl _).bind fun A => ?_
    exact (ih hscope).bind fun _ => .refl _

/-- Elaboration does not depend on the names of binders.  Types and definitions that are equal up to these have the
same result, whether it is an error or not.  Terms have the same core term and the same type; or they both fail,
for the same reason and with errors that differ at most in the names of binders in the function that is shown. -/
theorem elaboration_alphaEq (sig : Signature) :
    (∀ scope (s s' : Surface.Ty), s.AlphaEq [] s' → sig.elaborateTy scope s = sig.elaborateTy scope s') ∧
    (∀ d d' : Surface.TypeDef, d.AlphaEq d' → sig.elaborateDef d = sig.elaborateDef d') ∧
    ∀ scope expected (s s' : Surface.Term), s.AlphaEq [] [] s' →
      (∀ c T, sig.elaborate scope expected s = .ok (c, T) ↔ sig.elaborate scope expected s' = .ok (c, T)) ∧
      ∀ e, sig.elaborate scope expected s = .error e →
        ∃ e', sig.elaborate scope expected s' = .error e' ∧ e.AlphaEq e' := by
  refine ⟨?_, ?_, ?_⟩
  · intro scope s s' h
    exact elaborateTy_congr h (.refl scope)
  · intro d d' h
    exact elaborateDef_congr h
  · intro scope expected s s' h
    have halike : Alike (sig.elaborate scope expected s) (sig.elaborate scope expected s') :=
      alike_elaborate h (.refl scope)
    exact ⟨fun _ _ => halike.eq_ok_iff, fun _ => halike.exists_of_error⟩

/-- The type variable `a` is shadowed on the left and not on the right, the two parameters of the definition swap
their names, and the function without a parameter type shows a name that is bound around it. -/
theorem elaboration_alphaEq_shadowed :
    let sig := Signature.empty
    let A := Surface.Ty.all "a" .star (.all "a" .star (.var "a"))
    let A' := Surface.Ty.all "a" .star (.all "b" .star (.var "b"))
    let d : Surface.TypeDef := ⟨[("f", .arrow .star .star), ("a", .star)], .app (.var "f") (.var "a")⟩
    let d' : Surface.TypeDef := ⟨[("a", .arrow .star .star), ("f", .star)], .app (.var "a") (.var "f")⟩
    let inner := Surface.Term.tlam "a" .star (.lam "y" (some (.var "a")) (.var "x"))
    let inner' := Surface.Term.tlam "b" .star (.lam "x" (some (.var "b")) (.var "y"))
    let s := Surface.Term.tlam "a" .star (.lam "x" (some (.var "a")) inner)
    let s' := Surface.Term.tlam "a" .star (.lam "y" (some (.var "a")) inner')
    let c := Term.tlam .star (.lam (.var 0) (.tlam .star (.lam (.var 0) (.var 1))))
    let T := Ty.all .star (.arrow (.var 0) (.all .star (.arrow (.var 0) (.var 1))))
    let shown := fun name => Surface.Term.lam "y" none (.var name)
    let t := fun name => Surface.Term.lam name (some (.con .byte)) (shown name)
    (A.AlphaEq [] A' ∧ d.AlphaEq d' ∧ s.AlphaEq [] [] s' ∧ (t "x").AlphaEq [] [] (t "z")) ∧
    sig.elaborateTy .empty A = sig.elaborateTy .empty A' ∧ sig.elaborateDef d = sig.elaborateDef d' ∧
    (sig.elaborate .empty none s = .ok (c, T) ∧ sig.elaborate .empty none s' = .ok (c, T)) ∧
    sig.elaborate .empty none (t "x") = .error (.unknownDomain (shown "x")) ∧
    ∃ e', sig.elaborate .empty none (t "z") = .error e' ∧
      (ElaborationError.unknownDomain (shown "x")).AlphaEq e' := by
  intro sig A A' d d' inner inner' s s' c T shown t
  have hA : A.AlphaEq [] A' := .all (.all (.var (.bound "a" "b" _)))
  have hd : d.AlphaEq d' :=
    ⟨rfl, .app (.var (.outer (by decide) (by decide) (.bound "f" "a" _))) (.var (.bound "a" "f" _))⟩
  have hs : s.AlphaEq [] [] s' := by
    refine .tlam (.lam (.var (.bound "a" "a" _)) (.tlam (.lam (.var (.bound "a" "b" _)) (.var ?_))))
    exact .outer (by decide) (by decide) (.bound "x" "y" _)
  have ht : (t "x").AlphaEq [] [] (t "z") :=
    .lam (.con .byte) (.lamNone (.var (.outer (by decide) (by decide) (.bound "x" "z" _))))
  obtain ⟨htypes, hdefs, hterms⟩ := elaboration_alphaEq sig
  have hc : sig.elaborate .empty none s = .ok (c, T) := by decide +kernel
  have he : sig.elaborate .empty none (t "x") = .error (.unknownDomain (shown "x")) := by decide +kernel
  exact ⟨⟨hA, hd, hs, ht⟩, htypes .empty A A' hA, hdefs d d' hd,
    ⟨hc, ((hterms .empty none s s' hs).1 c T).mp hc⟩, he, (hterms .empty none (t "x") (t "z") ht).2 _ he⟩

end Signature

end AddressedF
