import AddressedF.Proofs.Checked
import AddressedF.Proofs.Transition
import Mathlib.Data.Set.Defs

/-!
# The Meaning of Types

A type stands for a set of machine values, and a type constructor for a function between such sets.  A
function type stands for the functions that evaluate, on each value of the domain, to a value of the
codomain.  A quantified type stands for the values that it stands for at every choice of the quantified type,
and a defined type for the values of its representation: types leave no trace in values.

## Main Definitions

* `Kind.Carrier`: what types of a kind may stand for
* `Meaning`: a kind and what a type of that kind stands for
* `Ty.meaning`, `TypeDef.meaning`: what a type and a defined constructor stand for
* `Signature.Defines`: a choice of meanings for addresses that agrees with the definitions

## Main Results

* `Ty.meaning_rename`, `Ty.meaning_substitute`: variables may be replaced in the type or in their meanings
* `Ty.meaning_opaqueType`: an opaque type stands for what its representation stands for
* `Signature.Checked.exists_defines`: definitions that were checked one after the other have meanings

## Design Notes

`full` is the signature that the machine runs over, which decides what is a function.  The definitions that a
type mentions come from a part of it, which grows along the order in which the definitions were checked.
-/

namespace AddressedF

/-- What types of a kind may stand for. -/
def Kind.Carrier : Kind → Type
  | star => Set Value
  | arrow domain codomain => domain.Carrier → codomain.Carrier

/-- A kind and what a type of that kind stands for. -/
structure Meaning where
  kind : Kind
  value : kind.Carrier

namespace Meaning

/-- A set of values, as the meaning of a type of kind `*`. -/
def ofSet (S : Set Value) : Meaning := ⟨.star, S⟩

/-- The values of a type.  No value has a type of another kind than `*`. -/
def toSet : Meaning → Set Value
  | ⟨.star, S⟩ => S
  | ⟨.arrow _ _, _⟩ => ∅

/-- The meaning of an application, if the kinds fit together. -/
def app : Meaning → Meaning → Meaning
  | ⟨.arrow domain codomain, F⟩, ⟨k, x⟩ =>
    if h : k = domain then ⟨codomain, F (h ▸ x)⟩ else ofSet ∅
  | ⟨.star, _⟩, _ => ofSet ∅

theorem app_mk {domain codomain : Kind} (F : (Kind.arrow domain codomain).Carrier)
    (x : domain.Carrier) : app ⟨.arrow domain codomain, F⟩ ⟨domain, x⟩ = ⟨codomain, F x⟩ :=
  dif_pos rfl

theorem kind_app {domain codomain : Kind} {f a : Meaning} (hf : f.kind = .arrow domain codomain)
    (ha : a.kind = domain) : (f.app a).kind = codomain := by
  obtain ⟨_, F⟩ := f
  obtain ⟨_, x⟩ := a
  cases hf
  cases ha
  rw [app_mk]

theorem ofSet_toSet {m : Meaning} (h : m.kind = .star) : ofSet m.toSet = m := by
  obtain ⟨_, S⟩ := m
  cases h
  rfl

/-- Meanings of the variables in scope, with one more variable in front. -/
def cons (m : Meaning) (ρ : Nat → Meaning) : Nat → Meaning
  | 0 => m
  | i + 1 => ρ i

/-- Meanings of the variables in scope, with more variables in front, the last one first. -/
def pushAll : List Meaning → (Nat → Meaning) → Nat → Meaning
  | [], ρ => ρ
  | m :: ms, ρ => pushAll ms (cons m ρ)

theorem cons_comp_underBinder (m : Meaning) (ρ : Nat → Meaning) (f : Nat → Nat) :
    cons m ρ ∘ underBinder f = cons m (ρ ∘ f) := by
  funext i
  cases i <;> rfl

theorem cons_comp_raise (m : Meaning) (ρ : Nat → Meaning) (n : Nat) :
    cons m ρ ∘ raise (n + 1) 0 = ρ ∘ raise n 0 := by
  funext i
  simp only [Function.comp_apply, raise_zero_right]
  rfl

theorem comp_raise_zero (ρ : Nat → Meaning) : ρ ∘ raise 0 0 = ρ := by
  funext i
  simp only [Function.comp_apply, raise_zero_right, Nat.add_zero]

theorem pushAll_apply (ms : List Meaning) (ρ : Nat → Meaning) (i : Nat) :
    pushAll ms ρ i = (ms.reverse[i]?).getD (ρ (i - ms.length)) := by
  induction ms generalizing ρ with
  | nil => rfl
  | cons m ms ih =>
    rw [pushAll, ih, List.reverse_cons]
    -- in front of the meaning that was pushed first, that meaning, or behind all of them
    rcases Nat.lt_trichotomy i ms.length with h | rfl | h
    · rw [List.getElem?_append_left (by simpa using h), List.getElem?_eq_getElem (by simpa using h)]
      rfl
    · simp [cons]
    · obtain ⟨j, rfl⟩ : ∃ j, i = ms.length + 1 + j := ⟨i - ms.length - 1, by omega⟩
      have hnone : ms.reverse[ms.length + 1 + j]? = none := by
        rw [List.getElem?_eq_none_iff, List.length_reverse]
        omega
      have hnone' : (ms.reverse ++ [m])[ms.length + 1 + j]? = none := by
        rw [List.getElem?_eq_none_iff, List.length_append, List.length_reverse, List.length_singleton]
        omega
      rw [hnone, hnone', Option.getD_none, Option.getD_none, List.length_cons,
        show ms.length + 1 + j - ms.length = j + 1 by omega,
        show ms.length + 1 + j - (ms.length + 1) = j by omega]
      rfl

/-- A function of the variables in scope as a function of the innermost ones, the first outermost. -/
def curry : (kinds : List Kind) → ((Nat → Meaning) → Set Value) → (Nat → Meaning) →
    (Kind.ofArguments kinds .star).Carrier
  | [], F, ρ => F ρ
  | k :: kinds, F, ρ => fun x => curry kinds F (cons ⟨k, x⟩ ρ)

theorem foldl_app_curry (ms : List Meaning) (F : (Nat → Meaning) → Set Value) (ρ : Nat → Meaning) :
    ms.foldl app ⟨.ofArguments (ms.map kind) .star, curry (ms.map kind) F ρ⟩ =
      ofSet (F (pushAll ms ρ)) := by
  induction ms generalizing ρ with
  | nil => rfl
  | cons m ms ih =>
    rw [List.foldl_cons, pushAll, ← ih (cons m ρ)]
    congr 1
    exact app_mk _ m.value

end Meaning

/-- The functions that evaluate to a value of `B` on each value of `A`. -/
def Signature.functions (full : Signature) (A B : Set Value) : Set Value :=
  {f | ∃ frame, f.frame? = some frame ∧
    ∀ w ∈ A, ∃ v ∈ B, ∀ k, full.Steps ⟨w.term, w.env, frame :: k⟩ ⟨v.term, v.env, k⟩}

/-- What a type constant stands for. -/
def TyCon.meaning (full : Signature) : TyCon → Meaning
  | arrow => ⟨.arrow .star (.arrow .star .star), full.functions⟩
  | byte => .ofSet {v | ∃ b, v = .byte b}

namespace Ty

variable (full : Signature) (I : Address → Meaning)

/-- What a type stands for, given what addresses and variables stand for. -/
def meaning : (Nat → Meaning) → Ty → Meaning
  | _, con c => c.meaning full
  | ρ, var i => ρ i
  | ρ, app f a => (meaning ρ f).app (meaning ρ a)
  | ρ, all k body => .ofSet {v | ∀ x : k.Carrier, v ∈ (meaning (.cons ⟨k, x⟩ ρ) body).toSet}
  | _, ref address => I address

/-- The values of a type. -/
def values (ρ : Nat → Meaning) (t : Ty) : Set Value :=
  (t.meaning full I ρ).toSet

variable {full I} {sig : Signature} {ρ ρ' : Nat → Meaning} {ks : List Kind} {k : Kind} {t a b : Ty}

theorem meaning_rename (f : Nat → Nat) (ρ : Nat → Meaning) (t : Ty) :
    (t.rename f).meaning full I ρ = t.meaning full I (ρ ∘ f) := by
  induction t generalizing f ρ with
  | con | var | ref => rfl
  | app _ _ ihf iha => rw [rename, meaning, ihf, iha, meaning]
  | all _ _ ih => simp only [rename, meaning, ih, Meaning.cons_comp_underBinder]

theorem meaning_substitute (σ : Nat → Ty) (ρ : Nat → Meaning) (t : Ty) :
    (t.substitute σ).meaning full I ρ = t.meaning full I fun i => (σ i).meaning full I ρ := by
  induction t generalizing σ ρ with
  | con | var | ref => rfl
  | app _ _ ihf iha => rw [substitute, meaning, ihf, iha, meaning]
  | all k _ ih =>
    have hlift : ∀ m : Meaning, (fun i => (liftSubstitution σ i).meaning full I (.cons m ρ)) =
        .cons m fun i => (σ i).meaning full I ρ := by
      intro m
      funext i
      cases i with
      | zero => rfl
      | succ i =>
        rw [liftSubstitution, meaning_rename, Meaning.cons_comp_raise, Meaning.comp_raise_zero]
        rfl
    simp only [substitute, meaning, ih, hlift]

/-- A type that has a kind stands for something of that kind. -/
theorem kind_meaning (hI : ∀ address k, sig.kindAt? address = some k → (I address).kind = k)
    (hρ : ∀ (i : Nat) k, ks[i]? = some k → (ρ i).kind = k) (h : sig.kindOf ks t = .ok k) :
    (t.meaning full I ρ).kind = k := by
  induction t generalizing ks ρ k with
  | con c =>
    cases h
    cases c <;> rfl
  | var i => exact hρ i k (Signature.kindOf_var_iff.mp h)
  | ref address => exact hI address k (Signature.kindOf_ref_iff.mp h)
  | app f a ihf iha =>
    obtain ⟨d, hf, ha⟩ := Signature.kindOf_app_iff.mp h
    exact Meaning.kind_app (ihf hρ hf) (iha hρ ha)
  | all k₀ body _ => exact (Signature.kindOf_all_iff.mp h).2.symm

/-- Only the variables in scope and the known definitions count. -/
theorem meaning_congr {I' : Address → Meaning}
    (hI : ∀ address k, sig.kindAt? address = some k → I address = I' address)
    (hρ : ∀ i, i < ks.length → ρ i = ρ' i) (h : sig.kindOf ks t = .ok k) :
    t.meaning full I ρ = t.meaning full I' ρ' := by
  induction t generalizing ks ρ ρ' k with
  | con => rfl
  | var i => exact hρ i (List.getElem?_eq_some_iff.mp (Signature.kindOf_var_iff.mp h)).1
  | ref address => exact hI address k (Signature.kindOf_ref_iff.mp h)
  | app f a ihf iha =>
    obtain ⟨d, hf, ha⟩ := Signature.kindOf_app_iff.mp h
    rw [meaning, meaning, ihf hρ hf, iha hρ ha]
  | all k₀ body ih =>
    have hcons : ∀ m : Meaning, ∀ i, i < (k₀ :: ks).length → Meaning.cons m ρ i = .cons m ρ' i := by
      intro m i hi
      cases i with
      | zero => rfl
      | succ i => exact hρ i (Nat.lt_of_succ_lt_succ hi)
    simp only [meaning, ih (hcons _) (Signature.kindOf_all_iff.mp h).1]

/-- The values of a function type are functions. -/
theorem values_arrow (hI : ∀ address k, sig.kindAt? address = some k → (I address).kind = k)
    (hρ : ∀ (i : Nat) k, ks[i]? = some k → (ρ i).kind = k) (ha : sig.kindOf ks a = .ok .star)
    (hb : sig.kindOf ks b = .ok .star) :
    (arrow a b).values full I ρ = full.functions (a.values full I ρ) (b.values full I ρ) := by
  rw [values, values, values, meaning, meaning,
    ← Meaning.ofSet_toSet (kind_meaning hI hρ ha), ← Meaning.ofSet_toSet (kind_meaning hI hρ hb)]
  rfl

/-- A value of a type quantified many times is one at every choice of the quantified types. -/
theorem mem_values_quantify {kinds : List Kind} {v : Value}
    (h : ∀ ms : List Meaning, ms.map Meaning.kind = kinds →
      v ∈ b.values full I (Meaning.pushAll ms ρ)) : v ∈ (quantify kinds b).values full I ρ := by
  induction kinds generalizing ρ with
  | nil => exact h [] rfl
  | cons k kinds ih =>
    intro x
    exact ih fun ms hms => h (⟨k, x⟩ :: ms) (by rw [List.map_cons, hms])

/-- A value of a quantified type is one of every instance. -/
theorem mem_values_instantiate {v : Value} (hv : v ∈ (all k b).values full I ρ)
    (hkind : (a.meaning full I ρ).kind = k) (hb : sig.kindOf (k :: ks) b = .ok .star)
    (ha : sig.kindOf ks a = .ok k) (fits : ks.length + a.nesting + (b.nesting + 1) ≤ maxIndex) :
    v ∈ (b.instantiate a).values full I ρ := by
  have hcons : (fun i => (instantiation a i).meaning full I ρ) = .cons (a.meaning full I ρ) ρ := by
    funext i
    cases i <;> rfl
  rw [Signature.instantiate_eq_substitute hb ha fits, values, meaning_substitute, hcons]
  subst hkind
  exact hv (a.meaning full I ρ).value

theorem meaning_apply (arguments : List Ty) (t : Ty) :
    (t.apply arguments).meaning full I ρ =
      (arguments.map (meaning full I ρ)).foldl Meaning.app (t.meaning full I ρ) := by
  induction arguments generalizing t with
  | nil => rfl
  | cons a arguments ih => rw [apply_cons, ih, List.map_cons, List.foldl_cons, meaning]

end Ty

/-! ## Defined types -/

/-- What a defined constructor stands for: a function of its parameters. -/
def TypeDef.meaning (full : Signature) (I : Address → Meaning) (d : TypeDef) : Meaning :=
  ⟨d.kind, Meaning.curry d.params (fun ρ => d.body.values full I ρ) fun _ => .ofSet ∅⟩

/-- Only the definitions that were known when the body was checked count. -/
theorem TypeDef.meaning_congr {sig full : Signature} {I I' : Address → Meaning} {d : TypeDef}
    (hI : ∀ address k, sig.kindAt? address = some k → I address = I' address)
    (h : sig.kindOf d.params.reverse d.body = .ok .star) : d.meaning full I = d.meaning full I' := by
  have hbody : (fun ρ => d.body.values full I ρ) = fun ρ => d.body.values full I' ρ := by
    funext ρ
    exact congrArg Meaning.toSet (Ty.meaning_congr hI (fun _ _ => rfl) h)
  rw [meaning, meaning, hbody]

/-- The chosen meanings of addresses are those of the definitions. -/
def Signature.Defines (sig full : Signature) (I : Address → Meaning) : Prop :=
  ∀ address e, sig.types.get? address = some e → I address = e.definition.meaning full I

namespace Signature

variable {sig full : Signature} {I : Address → Meaning} {bound : Nat} {address : Address}
  {e : TypeEntry} {ρ : Nat → Meaning}

theorem Defines.kind_eq (hI : sig.Defines full I) (hsig : sig.Sound bound) (address : Address) (k : Kind)
    (hk : sig.kindAt? address = some k) : (I address).kind = k := by
  obtain ⟨e, he, rfl⟩ := Option.map_eq_some_iff.mp hk
  rw [hI address e he, hsig.kind_eq he]
  rfl

/-- Where its parameters are bound, an opaque type stands for what its representation stands for. -/
theorem Defines.values_opaqueType (hI : sig.Defines full I) (hsig : sig.Sound bound)
    (he : sig.types.get? address = some e)
    (hρ : ∀ (i : Nat) k, e.definition.params.reverse[i]? = some k → (ρ i).kind = k) :
    (e.definition.opaqueType address).values full I ρ = e.definition.body.values full I ρ := by
  have hkinds : ((List.range e.definition.params.length).reverse.map ρ).map Meaning.kind =
      e.definition.params := by
    refine List.ext_getElem (by simp) ?_
    intro i hi hi'
    simp only [List.getElem_map, List.getElem_reverse, List.getElem_range, List.length_range]
    refine hρ _ _ ?_
    rw [List.getElem?_reverse (by omega), Nat.sub_sub_self (by omega), List.getElem?_eq_getElem hi']
  -- the meaning of the constructor, applied to the meanings of the variables it is applied to
  have happly := Meaning.foldl_app_curry ((List.range e.definition.params.length).reverse.map ρ)
    (fun ρ => e.definition.body.values full I ρ) fun _ => .ofSet ∅
  rw [hkinds] at happly
  have hbody : e.definition.body.meaning full I
      (Meaning.pushAll ((List.range e.definition.params.length).reverse.map ρ) fun _ =>
        .ofSet ∅) = e.definition.body.meaning full I ρ := by
    refine Ty.meaning_congr (fun _ _ _ => rfl) ?_ (hsig.kindOf_body he)
    intro i hi
    rw [List.length_reverse] at hi
    rw [Meaning.pushAll_apply, ← List.map_reverse, List.reverse_reverse, List.getElem?_map,
      List.getElem?_range hi]
    rfl
  rw [Ty.values, TypeDef.opaqueType, Ty.meaning_apply, List.map_map]
  show (List.foldl Meaning.app (I address) _).toSet = _
  rw [hI address e he]
  have hset := congrArg Meaning.toSet hbody
  exact (congrArg Meaning.toSet happly).trans hset

/-- A new definition does not change what the others stand for. -/
theorem Defines.addType {d : TypeDef} {k : Kind} (hI : sig.Defines full I) (hsig : sig.Sound bound)
    (hnew : sig.types.get? address = none) (hd : sig.kindOfDef d = .ok k) :
    (sig.addType address d k).Defines full (Function.update I address (d.meaning full I)) := by
  -- the address is new, so no definition that was checked mentions it
  have hagree : ∀ address' k, sig.kindAt? address' = some k →
      I address' = Function.update I address (d.meaning full I) address' := by
    intro address' k hk
    have hne : address' ≠ address := by
      rintro rfl
      rw [kindAt?, hnew] at hk
      cases hk
    rw [Function.update_of_ne hne]
  intro address' e he
  rw [Signature.addType, Table.get?_insertIfNew_of_none hnew] at he
  split at he
  · rename_i heq
    cases he
    rw [heq, Function.update_self]
    exact TypeDef.meaning_congr hagree (kindOfDef_eq_ok_iff.mp hd).1
  · rw [← hagree address' e.kind (Option.map_eq_some_iff.mpr ⟨e, he, rfl⟩), hI address' e he]
    exact TypeDef.meaning_congr hagree (hsig.kindOf_body he)

/-- Definitions that were checked one after the other have meanings, since none of them mentions itself. -/
theorem Checked.exists_defines (h : sig.Checked) (fits : sig.nesting ≤ maxIndex) (full : Signature) :
    ∃ I, sig.Defines full I := by
  induction h using Checked.induction_new with
  | empty => exact ⟨fun _ => .ofSet ∅, fun _ _ he => (nomatch he)⟩
  | addType address hsig hd hnew ih =>
    rw [nesting_addType hnew] at fits
    obtain ⟨I, hI⟩ := ih (by omega)
    exact ⟨_, hI.addType (hsig.sound (by omega)) hnew hd⟩
  | addTerm address _ _ hnew ih =>
    rw [nesting_addTerm hnew] at fits
    exact ih (by omega)

end Signature

end AddressedF
