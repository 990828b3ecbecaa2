import AddressedF.Proofs.Meaning

/-!
# Well-Typed Terms Evaluate

Every well-typed term evaluates to a value of its type, in every environment of values of the types in its
context.  The proof is an induction on the term; where the machine meets a reference, it relies on the terms
that were checked before.

## Main Definitions

* `Context.Realized`: meanings and values for the variables of a context
* `Signature.Realizes`: the terms of a signature evaluate to values of their types

## Main Results

* `Signature.Realizes.evaluates`: well-typed terms evaluate to values of their types
* `Signature.Checked.exists_meaning`: so do the terms of a checked signature
-/

namespace AddressedF

open Relation

/-- A type of every kind stands for something. -/
instance Kind.nonempty_carrier (k : Kind) : Nonempty k.Carrier := by
  induction k with
  | star => exact ⟨(∅ : Set Value)⟩
  | arrow _ _ _ ih => exact ih.elim fun x => ⟨fun _ => x⟩

namespace Signature

variable {sig full : Signature} {I : Address → Meaning} {A B : Set Value} {e f a body : Erased}
  {env : List Value} {v w : Value}

/-! ## Functions and their arguments -/

theorem Evaluates.app (hf : full.Evaluates f env v) (hv : v ∈ full.functions A B)
    (ha : full.Evaluates a env w) (hw : w ∈ A) : ∃ u ∈ B, full.Evaluates (.app f a) env u := by
  obtain ⟨frame, hframe, hresult⟩ := hv
  obtain ⟨u, hu, hsteps⟩ := hresult w hw
  refine ⟨u, hu, ?_⟩
  intro k
  have hfunction : full.Steps ⟨.app f a, env, k⟩ ⟨a, env, frame :: k⟩ :=
    .head (step_app f a env k) ((hf _).tail (step_function hframe a env k))
  exact hfunction.trans ((ha (frame :: k)).trans (hsteps k))

theorem closure_mem_functions (h : ∀ w ∈ A, ∃ v ∈ B, full.Evaluates body (w :: env) v) :
    .closure body env ∈ full.functions A B := by
  refine ⟨.body body env, rfl, ?_⟩
  intro w hw
  obtain ⟨v, hv, hsteps⟩ := h w hw
  exact ⟨v, hv, fun k => .head (step_bind w body env k) (hsteps k)⟩

theorem identity_mem_functions (A : Set Value) (env : List Value) :
    .closure (.var 0) env ∈ full.functions A A :=
  closure_mem_functions fun w hw => ⟨w, hw, fun k => .single (step_var rfl k)⟩

theorem succ_mem_functions :
    .succ ∈ full.functions {v | ∃ b, v = .byte b} {v | ∃ b, v = .byte b} := by
  refine ⟨.succ, rfl, ?_⟩
  rintro _ ⟨b, rfl⟩
  exact ⟨.byte (b + 1), ⟨b + 1, rfl⟩, fun k => .single (step_succ b k)⟩

/-- A term that has a value at every choice of the quantified type has one and the same at all of them. -/
theorem Evaluates.exists_mem_all {ρ : Nat → Meaning} {k : Kind} {t : Ty}
    (h : ∀ x : k.Carrier, ∃ v ∈ t.values full I (.cons ⟨k, x⟩ ρ), full.Evaluates e env v) :
    ∃ v ∈ (Ty.all k t).values full I ρ, full.Evaluates e env v := by
  obtain ⟨x⟩ := Kind.nonempty_carrier k
  obtain ⟨v, -, hv⟩ := h x
  refine ⟨v, ?_, hv⟩
  intro y
  -- runs do not branch, so the value at one choice is the value at the other
  obtain ⟨w, hw, hw'⟩ := h y
  rw [hv.unique hw']
  exact hw

/-- Each term evaluates to a value of its type. -/
def Realizes (sig full : Signature) (I : Address → Meaning) : Prop :=
  ∀ address e, sig.terms.get? address = some e → ∀ ρ,
    ∃ v ∈ e.type.values full I ρ, full.Evaluates e.term.erase [] v

end Signature

/-- Meanings of the right kinds for the type variables in scope, and values of the right types for the term
variables. -/
structure Context.Realized (full : Signature) (I : Address → Meaning) (Γ : Context) (ρ : Nat → Meaning)
    (env : List Value) : Prop where
  kind_eq : ∀ (i : Nat) k, Γ.kinds[i]? = some k → (ρ i).kind = k
  value : ∀ (i : Nat) b, Γ.types[i]? = some b →
    ∃ v, env[i]? = some v ∧ v ∈ b.type.values full I (ρ ∘ raise (Γ.kinds.length - b.depth) 0)

namespace Context.Realized

variable {sig full : Signature} {I : Address → Meaning} {Γ : Context} {ρ : Nat → Meaning}
  {env : List Value} {bound i : Nat} {t : Ty} {v : Value}

theorem empty (ρ : Nat → Meaning) : Context.empty.Realized full I ρ [] :=
  ⟨fun _ _ h => (nomatch h), fun _ _ h => (nomatch h)⟩

theorem pushKind (h : Γ.Realized full I ρ env) (hΓ : Γ.Sound sig bound) (k : Kind)
    (x : k.Carrier) : (Γ.pushKind k).Realized full I (.cons ⟨k, x⟩ ρ) env := by
  constructor
  · intro i k' hi
    cases i with
    | zero => exact Option.some.inj hi
    | succ i => exact h.kind_eq i k' hi
  · intro i b hb
    have hdepth := hΓ.depth_le b (List.mem_of_getElem? hb)
    have hlength : (Γ.pushKind k).kinds.length - b.depth = Γ.kinds.length - b.depth + 1 := by
      simp only [Context.pushKind, List.length_cons]
      omega
    rw [hlength, Meaning.cons_comp_raise]
    exact h.value i b hb

theorem pushType (h : Γ.Realized full I ρ env) (hv : v ∈ t.values full I ρ) :
    (Γ.pushType t).Realized full I ρ (v :: env) := by
  refine ⟨h.kind_eq, ?_⟩
  intro i b hb
  cases i with
  | zero =>
    cases hb
    refine ⟨v, rfl, ?_⟩
    simpa only [Context.pushType, Nat.sub_self, Meaning.comp_raise_zero] using hv
  | succ i => exact h.value i b hb

theorem lookup? (h : Γ.Realized full I ρ env) (hΓ : Γ.Sound sig bound)
    (fits : Γ.kinds.length + bound ≤ maxIndex) (ht : Γ.lookup? i = some t) :
    ∃ v, env[i]? = some v ∧ v ∈ t.values full I ρ := by
  obtain ⟨b, hb, rfl⟩ := Option.map_eq_some_iff.mp ht
  rw [hΓ.typeAt_eq_rename (List.mem_of_getElem? hb) fits, Ty.values, Ty.meaning_rename]
  exact h.value i b hb

/-- The meanings of the parameters of a definition go in front. -/
theorem kind_pushAll (h : Γ.Realized full I ρ env) {ms : List Meaning} {kinds : List Kind}
    (hms : ms.map Meaning.kind = kinds) (i : Nat) (k : Kind)
    (hi : (kinds.reverse ++ Γ.kinds)[i]? = some k) : (Meaning.pushAll ms ρ i).kind = k := by
  subst hms
  rw [Meaning.pushAll_apply]
  rcases Nat.lt_or_ge i ms.length with hlt | hge
  · rw [List.getElem?_append_left (by simpa using hlt), ← List.map_reverse, List.getElem?_map] at hi
    obtain ⟨m, hm, rfl⟩ := Option.map_eq_some_iff.mp hi
    rw [hm]
    rfl
  · rw [List.getElem?_append_right (by simpa using hge), List.length_reverse, List.length_map] at hi
    rw [List.getElem?_eq_none (by simpa using hge)]
    exact h.kind_eq _ k hi

end Context.Realized

namespace Signature

variable {sig full : Signature} {I : Address → Meaning} {Γ : Context} {ρ : Nat → Meaning}
  {env : List Value} {bound : Nat} {t : Term} {T : Ty}

/-- The two sides of a defined type are the identity on its values. -/
theorem Defines.identity_mem (hI : sig.Defines full I) (hsig : sig.Sound bound) {address : Address}
    {e : TypeEntry} (he : sig.types.get? address = some e) (hΓ : Γ.Realized full I ρ env) {x y : Ty}
    (hx : x = e.definition.body ∨ x = e.definition.opaqueType address)
    (hy : y = e.definition.body ∨ y = e.definition.opaqueType address) :
    .closure (.var 0) env ∈ (Ty.quantify e.definition.params (.arrow x y)).values full I ρ := by
  refine Ty.mem_values_quantify ?_
  intro ms hms
  have hkinds := hΓ.kind_pushAll hms
  have hside : ∀ {side : Ty},
      side = e.definition.body ∨ side = e.definition.opaqueType address →
        sig.kindOf (e.definition.params.reverse ++ Γ.kinds) side = .ok .star ∧
          side.values full I (Meaning.pushAll ms ρ) =
            e.definition.body.values full I (Meaning.pushAll ms ρ) := by
    rintro side (rfl | rfl)
    · exact ⟨kindOf_append Γ.kinds (hsig.kindOf_body he), rfl⟩
    · refine ⟨hsig.kindOf_opaqueType he Γ.kinds, hI.values_opaqueType hsig he ?_⟩
      intro i k hi
      refine hkinds i k ?_
      rw [List.getElem?_append_left (List.getElem?_eq_some_iff.mp hi).1]
      exact hi
  obtain ⟨hkind, hvalues⟩ := hside hx
  obtain ⟨hkind', hvalues'⟩ := hside hy
  rw [Ty.values_arrow (hI.kind_eq hsig) hkinds hkind hkind', hvalues, hvalues']
  exact identity_mem_functions _ env

/-- Well-typed terms evaluate to values of their types. -/
theorem Realizes.evaluates (hterms : sig.Realizes full I) (hsub : sig.Sub full)
    (hI : sig.Defines full I) (hsig : sig.Sound bound) (hΓ : Γ.Sound sig bound)
    (hreal : Γ.Realized full I ρ env) (fits : Γ.kinds.length + bound + t.nesting ≤ maxIndex)
    (h : sig.typeOf Γ t = .ok T) : ∃ v ∈ T.values full I ρ, full.Evaluates t.erase env v := by
  induction t generalizing Γ bound T ρ env with
  | var i =>
    obtain ⟨v, hv, hmem⟩ := hreal.lookup? hΓ (by omega) (typeOf_var_iff.mp h)
    exact ⟨v, hmem, fun k => .single (step_var hv k)⟩
  | ref address =>
    obtain ⟨entry, hentry, rfl⟩ := typeOf_ref_iff.mp h
    obtain ⟨v, hmem, hv⟩ := hterms address entry hentry ρ
    exact ⟨v, hmem, fun k => .head (step_ref (hsub.terms hentry) env k) (hv k)⟩
  | pack address =>
    obtain ⟨e, he, rfl⟩ := packType_eq_ok_iff.mp h
    exact ⟨_, hI.identity_mem hsig he hreal (.inl rfl) (.inr rfl), fun _ => .refl⟩
  | unpack address =>
    obtain ⟨e, he, rfl⟩ := unpackType_eq_ok_iff.mp h
    exact ⟨_, hI.identity_mem hsig he hreal (.inr rfl) (.inl rfl), fun _ => .refl⟩
  | app f a ihf iha =>
    simp only [Term.nesting] at fits
    obtain ⟨D, hf, ha⟩ := typeOf_app_iff.mp h
    obtain ⟨hD, hT, -⟩ := kindOf_arrow_iff.mp (kindOf_typeOf hsig hΓ (by omega) hf).1
    obtain ⟨v, hv, hv'⟩ := ihf hsig hΓ hreal (by omega) hf
    obtain ⟨w, hw, hw'⟩ := iha hsig hΓ hreal (by omega) ha
    rw [Ty.values_arrow (hI.kind_eq hsig) hreal.kind_eq hD hT] at hv
    exact hv'.app hv hw' hw
  | lam A body ih =>
    simp only [Term.nesting] at fits
    obtain ⟨B, hA, hbody, rfl⟩ := typeOf_lam_iff.mp h
    have hsig' := hsig.mono (Nat.le_add_right bound A.nesting)
    have hΓ' := (hΓ.mono (Nat.le_add_right bound A.nesting)).pushType hA (Nat.le_add_left _ _)
    have fits' : (Γ.pushType A).kinds.length + (bound + A.nesting) + body.nesting ≤ maxIndex := by
      simp only [Context.pushType]
      omega
    have hB := (kindOf_typeOf hsig' hΓ' fits' hbody).1
    -- a function is evaluated already, and it is one because its body evaluates for every argument
    refine ⟨.closure body.erase env, ?_, fun _ => .refl⟩
    rw [Ty.values_arrow (hI.kind_eq hsig) hreal.kind_eq hA hB]
    exact closure_mem_functions fun w hw => ih hsig' hΓ' (hreal.pushType hw) fits' hbody
  | tlam k body ih =>
    simp only [Term.nesting] at fits
    obtain ⟨B, hbody, rfl⟩ := typeOf_tlam_iff.mp h
    -- no trace of the abstraction is left, so one value has to do for every choice of the type
    refine Evaluates.exists_mem_all ?_
    intro x
    exact ih hsig (hΓ.pushKind k) (hreal.pushKind hΓ k x)
      (by simp only [Context.pushKind, List.length_cons]; omega) hbody
  | tapp f A ih =>
    simp only [Term.nesting] at fits
    obtain ⟨k, B, hf, hA, rfl⟩ := typeOf_tapp_iff.mp h
    obtain ⟨hkind, hnesting⟩ := kindOf_typeOf hsig hΓ (by omega) hf
    simp only [Ty.nesting] at hnesting
    obtain ⟨v, hv, hv'⟩ := ih hsig hΓ hreal (by omega) hf
    -- the choice is what the argument stands for, of whatever kind
    have hkindA : (A.meaning full I ρ).kind = k :=
      Ty.kind_meaning (hI.kind_eq hsig) hreal.kind_eq hA
    exact ⟨v, Ty.mem_values_instantiate hv hkindA (kindOf_all_iff.mp hkind).1 hA (by omega), hv'⟩

/-- The terms of a checked signature evaluate to values of their types: each refers only to terms that were
checked before it. -/
theorem Checked.realizes (h : sig.Checked) (fits : sig.nesting ≤ maxIndex) (hsub : sig.Sub full)
    (hI : sig.Defines full I) : sig.Realizes full I := by
  induction h using Checked.induction_new with
  | empty => exact fun _ _ he => (nomatch he)
  | @addType sig d k address _ _ hnew ih =>
    rw [nesting_addType hnew] at fits
    have hsub' := Sub.addType sig address d k
    exact ih (by omega) (hsub'.trans hsub) fun address' e he => hI address' e (hsub'.types he)
  | @addTerm sig t T address hsig ht hnew ih =>
    rw [nesting_addTerm hnew] at fits
    have hsub' := (Sub.addTerm sig address t T).trans hsub
    have hterms : sig.Realizes full I := ih (by omega) hsub' hI
    intro address' e he ρ
    rw [Signature.addTerm, Table.get?_insertIfNew_of_none hnew] at he
    split at he
    · cases he
      refine hterms.evaluates hsub' hI (hsig.sound (by omega)) .empty (.empty ρ) ?_ ht
      simp only [Context.empty, List.length_nil]
      omega
    · exact hterms address' e he ρ

/-- The meaning of the defined types over a checked signature, in which all its terms have values. -/
theorem Checked.exists_meaning (h : sig.Checked) (fits : sig.nesting ≤ maxIndex) :
    ∃ I, sig.Defines sig I ∧ sig.Realizes sig I := by
  obtain ⟨I, hI⟩ := h.exists_defines fits sig
  exact ⟨I, hI, h.realizes fits (.refl sig) hI⟩

end Signature

end AddressedF
