import AddressedF.Proofs.Except
import AddressedF.Typing.Basic

/-!
# The Checker Reads What Is Mentioned

A check of a term or of a type definition reads a signature only at the addresses that the term or the
definition mentions.  What is read there may mention other addresses, and these are not read: the type that
was recorded for a term is taken as it is.

## Main Definitions

* `Signature.AgreesOn`, `Signature.Knows`: what two signatures, and what one signature, know of references
* `TypeError.IsJustified`: what is reported to be undefined is mentioned and not known
* `Confined`: a computation reads nothing but the references, and does not succeed without them

## Main Results

* `Confined.bind`: computations that are confined to parts may follow each other
* `Signature.confined_kindOf`, `Signature.confined_typeOf`, `Signature.confined_kindOfDef`: the checks are
  confined to the references of what is checked
* `Signature.checks_confined`: the same of all contexts, terms and definitions

## Design Notes

References and checks are computed apart from each other.  They are compared in one pass over the syntax: each
constructor is an application of the rule for `bind`, which joins the references of the parts.
-/

namespace AddressedF

/-! ## References of a signature -/

namespace Signature

/-- Both signatures have the same type for each of the terms and the same entry for each of the types. -/
structure AgreesOn (r : References) (sig sig' : Signature) : Prop where
  typeAt?_eq : ∀ a ∈ r.terms, sig.typeAt? a = sig'.typeAt? a
  entry_eq : ∀ a ∈ r.types, sig.types.get? a = sig'.types.get? a

/-- Every reference has an entry. -/
structure Knows (r : References) (sig : Signature) : Prop where
  term : ∀ a ∈ r.terms, ∃ e, sig.terms.get? a = some e
  type : ∀ a ∈ r.types, ∃ e, sig.types.get? a = some e

variable {r s : References} {sig sig' : Signature}

theorem AgreesOn.left (h : sig.AgreesOn (r ++ s) sig') : sig.AgreesOn r sig' :=
  ⟨fun a ha => h.typeAt?_eq a (List.mem_append_left _ ha), fun a ha => h.entry_eq a (List.mem_append_left _ ha)⟩

theorem AgreesOn.right (h : sig.AgreesOn (r ++ s) sig') : sig.AgreesOn s sig' :=
  ⟨fun a ha => h.typeAt?_eq a (List.mem_append_right _ ha), fun a ha => h.entry_eq a (List.mem_append_right _ ha)⟩

theorem Knows.empty (sig : Signature) : sig.Knows .empty :=
  ⟨fun _ h => (nomatch h), fun _ h => (nomatch h)⟩

theorem Knows.append (hr : sig.Knows r) (hs : sig.Knows s) : sig.Knows (r ++ s) := by
  constructor
  · intro a ha
    rcases List.mem_append.mp ha with ha | ha
    · exact hr.term a ha
    · exact hs.term a ha
  · intro a ha
    rcases List.mem_append.mp ha with ha | ha
    · exact hr.type a ha
    · exact hs.type a ha

end Signature

/-- An error that reports a reference as undefined reports one of these, and it is not known. -/
def TypeError.IsJustified (r : References) (sig : Signature) : TypeError → Prop
  | undefinedTerm a => a ∈ r.terms ∧ sig.terms.get? a = none
  | undefinedType a => a ∈ r.types ∧ sig.types.get? a = none
  | _ => True

theorem TypeError.IsJustified.mono {r r' : References} {sig : Signature} {e : TypeError}
    (h : e.IsJustified r sig) (hterms : ∀ a ∈ r.terms, a ∈ r'.terms) (htypes : ∀ a ∈ r.types, a ∈ r'.types) :
    e.IsJustified r' sig := by
  cases e with
  | undefinedTerm a => exact ⟨hterms a h.1, h.2⟩
  | undefinedType a => exact ⟨htypes a h.1, h.2⟩
  | _ => trivial

theorem References.append_empty (r : References) : r ++ empty = r := by
  obtain ⟨terms, types⟩ := r
  show References.mk (terms ++ []) (types ++ []) = _
  rw [List.append_nil, List.append_nil]

/-! ## Confined computations -/

/-- What comes out, be it a value or an error, is the same over signatures that agree on the references.  No
other reference is reported to be undefined, and all of them are known if a value comes out. -/
structure Confined {α : Type} (r : References) (run : Signature → Except TypeError α) : Prop where
  eq_of_agrees : ∀ {sig sig'}, sig.AgreesOn r sig' → run sig = run sig'
  isJustified : ∀ {sig e}, run sig = .error e → e.IsJustified r sig
  knows : ∀ {sig v}, run sig = .ok v → sig.Knows r

namespace Confined

variable {α β : Type} {r s : References}

theorem pure (v : α) : Confined .empty fun _ => (.ok v : Except TypeError α) :=
  ⟨fun _ => rfl, fun h => (nomatch h), fun _ => .empty _⟩

theorem error (r : References) {e : TypeError} (he : ∀ sig, e.IsJustified r sig) :
    Confined r fun _ => (.error e : Except TypeError α) :=
  ⟨fun _ => rfl, fun h => Except.error.inj h ▸ he _, fun h => (nomatch h)⟩

/-- Something is looked up that the references decide, and that is missing only if one of them is. -/
theorem lookup {γ : Type} {run : Signature → Except TypeError α} (get? : Signature → Option γ) (f : γ → α)
    (e : TypeError) (hsome : ∀ sig c, get? sig = some c → run sig = .ok (f c))
    (hnone : ∀ sig, get? sig = none → run sig = .error e)
    (hagree : ∀ {sig sig'}, sig.AgreesOn r sig' → get? sig = get? sig')
    (hmissing : ∀ sig, get? sig = none → e.IsJustified r sig)
    (hknown : ∀ sig c, get? sig = some c → sig.Knows r) : Confined r run := by
  constructor
  · intro sig sig' h
    cases hc : get? sig with
    | none => rw [hnone sig hc, hnone sig' ((hagree h).symm.trans hc)]
    | some c => rw [hsome sig c hc, hsome sig' c ((hagree h).symm.trans hc)]
  · intro sig e' h
    cases hc : get? sig with
    | none =>
      rw [hnone sig hc] at h
      cases h
      exact hmissing sig hc
    | some c =>
      rw [hsome sig c hc] at h
      cases h
  · intro sig v h
    cases hc : get? sig with
    | none =>
      rw [hnone sig hc] at h
      cases h
    | some c => exact hknown sig c hc

/-- A type definition is looked up. -/
theorem ofType {run : Signature → Except TypeError α} (a : Address) (f : TypeEntry → α)
    (hsome : ∀ sig e, sig.types.get? a = some e → run sig = .ok (f e))
    (hnone : ∀ sig, sig.types.get? a = none → run sig = .error (.undefinedType a)) :
    Confined ⟨[], [a]⟩ run := by
  refine .lookup (fun sig => sig.types.get? a) f _ hsome hnone ?_ ?_ ?_
  · intro sig sig' h
    exact h.entry_eq a (List.mem_singleton_self a)
  · intro sig h
    exact ⟨List.mem_singleton_self a, h⟩
  · intro sig e h
    refine ⟨fun _ hb => (nomatch hb), ?_⟩
    intro b hb
    obtain rfl := List.mem_singleton.mp hb
    exact ⟨e, h⟩

/-- The type of a term is looked up. -/
theorem ofTerm {run : Signature → Except TypeError Ty} (a : Address)
    (hsome : ∀ sig T, sig.typeAt? a = some T → run sig = .ok T)
    (hnone : ∀ sig, sig.typeAt? a = none → run sig = .error (.undefinedTerm a)) :
    Confined ⟨[a], []⟩ run := by
  refine .lookup (fun sig => sig.typeAt? a) id _ hsome hnone ?_ ?_ ?_
  · intro sig sig' h
    exact h.typeAt?_eq a (List.mem_singleton_self a)
  · intro sig h
    exact ⟨List.mem_singleton_self a, Option.map_eq_none_iff.mp h⟩
  · intro sig T h
    refine ⟨?_, fun _ hb => (nomatch hb)⟩
    intro b hb
    obtain rfl := List.mem_singleton.mp hb
    obtain ⟨e, he, -⟩ := Option.map_eq_some_iff.mp h
    exact ⟨e, he⟩

/-- The second computation goes on with what the first one finds. -/
theorem bind {x : Signature → Except TypeError α} {f : α → Signature → Except TypeError β}
    (hx : Confined r x) (hf : ∀ v, Confined s (f v)) : Confined (r ++ s) fun sig => x sig >>= (f · sig) := by
  constructor
  · intro sig sig' h
    have hrest : (f · sig) = (f · sig') := funext fun v => (hf v).eq_of_agrees h.right
    simp only [hx.eq_of_agrees h.left, hrest]
  · intro sig e h
    rcases bind_eq_error_iff.mp h with h | ⟨v, -, h⟩
    · exact (hx.isJustified h).mono (fun _ => List.mem_append_left _) fun _ => List.mem_append_left _
    · exact ((hf v).isJustified h).mono (fun _ => List.mem_append_right _) fun _ => List.mem_append_right _
  · intro sig w h
    obtain ⟨v, hv, hw⟩ := bind_eq_ok_iff.mp h
    exact (hx.knows hv).append ((hf v).knows hw)

/-- What follows need not read anything. -/
theorem bind_empty {x : Signature → Except TypeError α} {f : α → Signature → Except TypeError β}
    (hx : Confined r x) (hf : ∀ v, Confined .empty (f v)) : Confined r fun sig => x sig >>= (f · sig) := by
  have h := hx.bind hf
  rwa [References.append_empty] at h

theorem map {x : Signature → Except TypeError α} (hx : Confined r x) (f : α → β) :
    Confined r fun sig => (x sig).map f := by
  have heq : (fun sig => (x sig).map f) = fun sig => x sig >>= fun v => .ok (f v) := by
    funext sig
    cases x sig <;> rfl
  rw [heq]
  exact hx.bind_empty fun v => .pure (f v)

end Confined

/-! ## The checks -/

namespace Signature

theorem confined_expectKind (t : Ty) (expected found : Kind) :
    Confined .empty fun _ => expectKind t expected found := by
  unfold expectKind
  split
  · exact .pure ()
  · exact .error _ fun _ => trivial

theorem confined_expectType (t : Term) (expected found : Ty) :
    Confined .empty fun _ => expectType t expected found := by
  unfold expectType
  split
  · exact .pure ()
  · exact .error _ fun _ => trivial

theorem confined_kindOf (ks : List Kind) (t : Ty) : Confined t.asReferences fun sig => sig.kindOf ks t := by
  induction t generalizing ks with
  | con c => exact .pure c.kind
  | var i =>
    simp only [kindOf]
    cases ks[i]? with
    | none => exact .error _ fun _ => trivial
    | some k => exact .pure k
  | ref a =>
    refine .ofType a TypeEntry.kind ?_ ?_
    · intro sig e he
      rw [kindOf, kindAt?, he]
      rfl
    · intro sig hnone
      rw [kindOf, kindAt?, hnone]
      rfl
  | app f a ihf iha =>
    simp only [kindOf]
    show Confined (f.asReferences ++ a.asReferences) _
    refine (ihf ks).bind fun k => ?_
    cases k with
    | star => exact .error _ fun _ => trivial
    | arrow domain codomain =>
      refine (iha ks).bind_empty fun found => ?_
      exact (confined_expectKind a domain found).bind_empty fun _ => .pure codomain
  | all k body ih =>
    simp only [kindOf]
    refine (ih (k :: ks)).bind_empty fun found => ?_
    exact (confined_expectKind body .star found).bind_empty fun _ => .pure Kind.star

theorem confined_checkKind (ks : List Kind) (t : Ty) (expected : Kind) :
    Confined t.asReferences fun sig => sig.checkKind ks t expected := by
  simp only [checkKind]
  exact (confined_kindOf ks t).bind_empty fun found => confined_expectKind t expected found

theorem confined_kindOfDef (d : TypeDef) : Confined ⟨[], d.references⟩ fun sig => sig.kindOfDef d := by
  simp only [kindOfDef]
  exact (confined_checkKind d.params.reverse d.body .star).bind_empty fun _ => .pure d.kind

theorem confined_definitionOf (a : Address) : Confined ⟨[], [a]⟩ fun sig => sig.definitionOf a := by
  refine .ofType a TypeEntry.definition ?_ ?_
  · intro sig e he
    rw [definitionOf, he]
  · intro sig hnone
    rw [definitionOf, hnone]

theorem confined_typeOf (Γ : Context) (u : Term) : Confined u.references fun sig => sig.typeOf Γ u := by
  induction u generalizing Γ with
  | var i =>
    simp only [typeOf]
    cases Γ.lookup? i with
    | none => exact .error _ fun _ => trivial
    | some T => exact .pure T
  | ref a =>
    refine .ofTerm a ?_ ?_
    · intro sig T hT
      rw [typeOf, hT]
    · intro sig hnone
      rw [typeOf, hnone]
  | pack a =>
    simp only [typeOf, packType]
    exact (confined_definitionOf a).bind_empty fun d => .pure _
  | unpack a =>
    simp only [typeOf, unpackType]
    exact (confined_definitionOf a).bind_empty fun d => .pure _
  | app f a ihf iha =>
    simp only [typeOf]
    refine (ihf Γ).bind fun T => ?_
    cases T.asArrow? with
    | none => exact .error _ fun _ => trivial
    | some domains =>
      refine (iha Γ).bind_empty fun found => ?_
      exact (confined_expectType a domains.1 found).bind_empty fun _ => .pure domains.2
  | lam A body ih =>
    simp only [typeOf]
    refine (confined_checkKind Γ.kinds A .star).bind fun _ => ?_
    exact (ih (Γ.pushType A)).bind_empty fun B => .pure _
  | tapp f A ih =>
    simp only [typeOf]
    refine (ih Γ).bind fun T => ?_
    cases T with
    | all k body => exact (confined_checkKind Γ.kinds A k).bind_empty fun _ => .pure _
    | con | var | app | ref => exact .error _ fun _ => trivial
  | tlam k body ih =>
    simp only [typeOf]
    exact (ih (Γ.pushKind k)).bind_empty fun B => .pure _

/-- The type of a term in a context, and the kind of a definition, depend only on what is known of the addresses
that the term or the definition mentions, down to the errors.  A reference that is reported to be undefined is
mentioned and not known, and where there is no error, everything that is mentioned is known. -/
theorem checks_confined :
    (∀ Γ u, Confined u.references fun sig => sig.typeOf Γ u) ∧
      ∀ d : TypeDef, Confined ⟨[], d.references⟩ fun sig => sig.kindOfDef d :=
  ⟨confined_typeOf, confined_kindOfDef⟩

end Signature

end AddressedF
