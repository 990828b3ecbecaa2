import AddressedF.Proofs.BigStep
import Mathlib.Algebra.GroupWithZero.Nat

/-!
# The Two Sides of an Opaque Type

A definition with parameters gives two polymorphic functions, one from the representation to the opaque type and
one back.  Both take as many types as the definition has parameters.  They are used one type at a time, and each
of them is put into what the ones before it left; what comes out is the representation with all of them in place
at once.  At the same types the two functions undo each other, in types and in evaluation.

## Main Definitions

* `Ty.instantiations`: types in place of several variables at once
* `Signature.Undoes`: a term that leads back from where another term leads

## Main Results

* `Ty.substitute_instantiationAt_instantiations`: one instantiation after another is one for all variables
* `Signature.typeOf_applyTypes`: the type of a polymorphic term at as many types as it has quantifiers
* `Signature.Checked.opaque_sides`: the types of both sides at given parameters, and that they undo each other

## Design Notes

The arguments may have free variables.  Those of an argument that is put in stay apart from the quantifiers for
the arguments after it, because it is moved past them and the later instantiations move it back.
-/

namespace AddressedF

namespace Ty

/-- Puts types in place of as many variables at once, the last of them in place of variable zero, and moves the
other variables inward. -/
def instantiations (arguments : List Ty) (i : Nat) : Ty :=
  (arguments.reverse[i]?).getD (var (i - arguments.length))

variable {arguments : List Ty} {i : Nat}

theorem instantiations_nil : instantiations [] = var := rfl

/-- The last variables belong to the first arguments. -/
theorem instantiations_of_lt (h : i < arguments.length) :
    instantiations arguments i = arguments[arguments.length - 1 - i] := by
  rw [instantiations, List.getElem?_reverse h, List.getElem?_eq_getElem, Option.getD_some]

theorem instantiations_of_le (h : arguments.length ≤ i) :
    instantiations arguments i = var (i - arguments.length) := by
  rw [instantiations, List.getElem?_eq_none (by rwa [List.length_reverse]), Option.getD_none]

/-- What is moved past as many binders as there are arguments is left alone by them. -/
theorem substitute_instantiations_rename (a : Ty) (arguments : List Ty) :
    (a.rename (raise arguments.length 0)).substitute (instantiations arguments) = a := by
  have hback : instantiations arguments ∘ raise arguments.length 0 = var := by
    funext i
    rw [Function.comp_apply, raise_zero_right, instantiations_of_le (Nat.le_add_left _ _),
      Nat.add_sub_cancel]
  rw [substitute_rename, hback, substitute_var]

/-- The first argument is put in under the binders for the others, and then the others are put in. -/
theorem substitute_instantiationAt_instantiations (a t : Ty) (arguments : List Ty) :
    (t.substitute (instantiationAt arguments.length a)).substitute (instantiations arguments) =
      t.substitute (instantiations (a :: arguments)) := by
  rw [substitute_substitute]
  congr 1
  funext i
  rw [instantiationAt]
  rcases Nat.lt_trichotomy i arguments.length with h | h | h
  · have hindex : (a :: arguments).length - 1 - i = arguments.length - 1 - i + 1 := by
      rw [List.length_cons]
      omega
    rw [if_pos h, substitute, instantiations_of_lt h, instantiations_of_lt (Nat.lt_succ_of_lt h)]
    simp only [hindex, List.getElem_cons_succ]
  · subst h
    rw [if_neg (Nat.lt_irrefl _), if_pos rfl, substitute_instantiations_rename,
      instantiations_of_lt (Nat.lt_succ_self _)]
    simp only [List.length_cons, Nat.add_sub_cancel, Nat.sub_self, List.getElem_cons_zero]
  · rw [if_neg (by omega), if_neg (by omega), substitute, instantiations_of_le (by omega),
      instantiations_of_le h, List.length_cons]
    congr 1
    omega

/-! ## Substitution in what has parameters -/

theorem substitute_quantify (kinds : List Kind) (body a : Ty) (depth : Nat) :
    (quantify kinds body).substitute (instantiationAt depth a) =
      quantify kinds (body.substitute (instantiationAt (depth + kinds.length) a)) := by
  induction kinds generalizing depth with
  | nil => rfl
  | cons k kinds ih =>
    rw [quantify_cons, substitute, liftSubstitution_instantiationAt, ih, quantify_cons, List.length_cons,
      Nat.add_assoc, Nat.add_comm 1]

theorem substitute_apply (σ : Nat → Ty) (head : Ty) (as : List Ty) :
    (head.apply as).substitute σ = (head.substitute σ).apply (as.map (substitute σ)) := by
  induction as generalizing head with
  | nil => rfl
  | cons a as ih =>
    rw [apply_cons, ih, List.map_cons, apply_cons, substitute]

end Ty

/-- The opaque type where its parameters are bound becomes the opaque type at the arguments. -/
theorem TypeDef.substitute_opaqueType {d : TypeDef} {arguments : List Ty}
    (h : arguments.length = d.params.length) (address : Address) :
    (d.opaqueType address).substitute (Ty.instantiations arguments) = (Ty.ref address).apply arguments := by
  rw [opaqueType, Ty.substitute_apply, List.map_map]
  congr 1
  refine List.ext_getElem (by simp [h]) ?_
  intro i hi hi'
  simp only [List.getElem_map, List.getElem_reverse, List.getElem_range, List.length_range, Function.comp_apply,
    Ty.substitute]
  rw [Ty.instantiations_of_lt (by omega)]
  congr 1
  omega

theorem Term.erase_applyTypes (t : Term) (arguments : List Ty) : (t.applyTypes arguments).erase = t.erase := by
  induction arguments generalizing t with
  | nil => rfl
  | cons a arguments ih => rw [applyTypes_cons, ih, erase]

namespace Signature

variable {sig : Signature} {Γ : Context} {f g t : Term} {A B body : Ty} {kinds : List Kind}
  {arguments : List Ty} {address : Address} {e : TypeEntry}

/-! ## A polymorphic term at several types -/

/-- A polymorphic term at as many types as it has quantifiers, each of the kind that it asks for. -/
theorem typeOf_applyTypes
    (harguments : List.Forall₂ (fun a k => sig.kindOf Γ.kinds a = .ok k) arguments kinds)
    (ht : sig.typeOf Γ t = .ok (.quantify kinds body))
    (hkind : sig.kindOf Γ.kinds (.quantify kinds body) = .ok .star)
    (fits : Γ.kinds.length + (Ty.quantify kinds body).nesting + (arguments.map Ty.nesting).sum ≤ maxIndex) :
    sig.typeOf Γ (t.applyTypes arguments) = .ok (body.substitute (Ty.instantiations arguments)) := by
  induction harguments generalizing t body with
  | nil =>
    rw [Ty.instantiations_nil, Ty.substitute_var]
    exact ht
  | @cons a k arguments kinds ha harguments ih =>
    rw [Ty.quantify_cons] at ht hkind fits
    simp only [Ty.nesting, List.map_cons, List.sum_cons] at fits
    obtain ⟨hbody, -⟩ := kindOf_all_iff.mp hkind
    have hfits : Γ.kinds.length + a.nesting + ((Ty.quantify kinds body).nesting + 1) ≤ maxIndex := by omega
    -- the first argument is put into the body, under the quantifiers for the others
    have hinstance : (Ty.quantify kinds body).instantiate a =
        .quantify kinds (body.substitute (Ty.instantiationAt kinds.length a)) := by
      rw [instantiate_eq_substitute hbody ha hfits, ← Ty.instantiationAt_zero, Ty.substitute_quantify,
        Nat.zero_add]
    have ht' := typeOf_tapp_iff.mpr ⟨k, _, ht, ha, rfl⟩
    have hkind' := kindOf_instantiate hbody ha hfits
    have hnesting := nesting_instantiate_le hbody ha hfits
    rw [hinstance] at ht' hkind' hnesting
    rw [Term.applyTypes_cons, ih ht' hkind' (by omega), ← harguments.length_eq,
      Ty.substitute_instantiationAt_instantiations]

/-- A function between the two sides of a definition, at types of the kinds of its parameters. -/
theorem Sound.typeOf_applyTypes_side {bound : Nat} {x y : Ty} (hsig : sig.Sound bound)
    (he : sig.types.get? address = some e)
    (harguments : List.Forall₂ (fun a k => sig.kindOf Γ.kinds a = .ok k) arguments e.definition.params)
    (ht : sig.typeOf Γ t = .ok (.quantify e.definition.params (.arrow x y)))
    (hx : x = e.definition.body ∨ x = e.definition.opaqueType address)
    (hy : y = e.definition.body ∨ y = e.definition.opaqueType address)
    (fits : Γ.kinds.length + bound + (arguments.map Ty.nesting).sum ≤ maxIndex) :
    sig.typeOf Γ (t.applyTypes arguments) =
      .ok (.arrow (x.substitute (Ty.instantiations arguments)) (y.substitute (Ty.instantiations arguments))) := by
  obtain ⟨hkind, hnesting⟩ := hsig.kindOf_quantify_arrow he Γ.kinds hx hy
  exact typeOf_applyTypes harguments ht hkind (by omega)

/-! ## There and back -/

/-- Going from the terms of a type with `f` and back with `g` is possible and comes to nothing: the type is the
same again, and wherever the machine goes on with a value, the value is the same. -/
structure Undoes (sig : Signature) (Γ : Context) (g f : Term) (A : Ty) : Prop where
  typeOf_eq : ∀ t, sig.typeOf Γ t = .ok A → sig.typeOf Γ (.app g (.app f t)) = .ok A
  returns_iff : ∀ t (m : Machine), m.Used sig → ∀ env k v,
    m.Returns k v ⟨(Term.app g (.app f t)).erase, env, k⟩ ↔ m.Returns k v ⟨t.erase, env, k⟩

theorem bigStep_identity_iff {e : Erased} {env : List Value} {v : Value} :
    sig.BigStep (.app .identity e) env v ↔ sig.BigStep e env v := by
  constructor
  · intro h
    cases h with
    | app hf ha hbody =>
      cases hf
      cases hbody with
      | var hv =>
        cases hv
        exact ha
    | appSucc hf _ => cases hf
  · intro h
    exact .app .lam h (.var rfl)

/-- Two functions that go opposite ways and erase to the identity undo each other. -/
theorem undoes_of_erase (hf : sig.typeOf Γ f = .ok (.arrow A B)) (hg : sig.typeOf Γ g = .ok (.arrow B A))
    (hf' : f.erase = .identity) (hg' : g.erase = .identity) : sig.Undoes Γ g f A := by
  constructor
  · intro t ht
    exact typeOf_app_iff.mpr ⟨B, hg, typeOf_app_iff.mpr ⟨A, hf, ht⟩⟩
  · intro t m hm env k v
    obtain ⟨-, hfaithful⟩ := hm.faithful
    rw [Term.erase, Term.erase, hf', hg', hfaithful.returns_iff, hfaithful.returns_iff, bigStep_identity_iff,
      bigStep_identity_iff]

/-- At types of the kinds of its parameters, the two sides of a definition go from its body, with the types in
place of the parameters all at once, to the opaque type at these types and back.  Each of them undoes the other
one.  The variables of all types have to fit in the range of indices. -/
theorem Checked.opaque_sides (hsig : sig.Checked) (he : sig.types.get? address = some e)
    (harguments : List.Forall₂ (fun a k => sig.kindOf Γ.kinds a = .ok k) arguments e.definition.params)
    (fits : Γ.kinds.length + sig.nesting + (arguments.map Ty.nesting).sum ≤ maxIndex) :
    let representation := e.definition.body.substitute (Ty.instantiations arguments)
    let hidden := (Ty.ref address).apply arguments
    let packed := (Term.pack address).applyTypes arguments
    let unpacked := (Term.unpack address).applyTypes arguments
    sig.typeOf Γ packed = .ok (.arrow representation hidden) ∧
    sig.typeOf Γ unpacked = .ok (.arrow hidden representation) ∧
    sig.Undoes Γ unpacked packed representation ∧ sig.Undoes Γ packed unpacked hidden := by
  intro representation hidden packed unpacked
  have hsound := hsig.sound (by omega)
  have hhidden := TypeDef.substitute_opaqueType harguments.length_eq address
  have hpacked : sig.typeOf Γ packed = .ok (.arrow representation hidden) := by
    have hside : sig.typeOf Γ (.pack address) = .ok (.quantify e.definition.params _) :=
      packType_eq_ok_iff.mpr ⟨e, he, rfl⟩
    have h := hsound.typeOf_applyTypes_side he harguments hside (.inl rfl) (.inr rfl) fits
    rwa [hhidden] at h
  have hunpacked : sig.typeOf Γ unpacked = .ok (.arrow hidden representation) := by
    have hside : sig.typeOf Γ (.unpack address) = .ok (.quantify e.definition.params _) :=
      unpackType_eq_ok_iff.mpr ⟨e, he, rfl⟩
    have h := hsound.typeOf_applyTypes_side he harguments hside (.inr rfl) (.inl rfl) fits
    rwa [hhidden] at h
  have hpack : packed.erase = .identity := Term.erase_applyTypes _ _
  have hunpack : unpacked.erase = .identity := Term.erase_applyTypes _ _
  exact ⟨hpacked, hunpacked, undoes_of_erase hpacked hunpacked hpack hunpack,
    undoes_of_erase hunpacked hpacked hunpack hpack⟩

/-- A function type and a constructor, both with free variables, are put under a quantifier of the representation.
A variable of that type goes to the opaque type and comes back. -/
theorem opaque_sides_under_quantifier :
    let address : Address := ⟨.replicate 32 0⟩
    let d : TypeDef := ⟨[.star, .arrow .star .star], .all .star (.arrow (.app (.var 1) (.var 2)) (.var 0))⟩
    let sig := Signature.empty.addType address d d.kind
    let arguments := [Ty.arrow (.var 0) .byte, .var 1]
    let representation := Ty.all .star (.arrow (.app (.var 2) (.arrow (.var 1) .byte)) (.var 0))
    let hidden := Ty.app (.app (.ref address) (.arrow (.var 0) .byte)) (.var 1)
    let Γ := ((Context.empty.pushKind (.arrow .star .star)).pushKind .star).pushType representation
    let packed := (Term.pack address).applyTypes arguments
    let unpacked := (Term.unpack address).applyTypes arguments
    (sig.Checked ∧ sig.types.get? address = some ⟨d, d.kind⟩ ∧
      List.Forall₂ (fun a k => sig.kindOf Γ.kinds a = .ok k) arguments d.params ∧
      Γ.kinds.length + sig.nesting + (arguments.map Ty.nesting).sum ≤ maxIndex) ∧
    d.body.substitute (Ty.instantiations arguments) = representation ∧
    sig.typeOf Γ packed = .ok (.arrow representation hidden) ∧
    sig.typeOf Γ unpacked = .ok (.arrow hidden representation) ∧
    sig.typeOf Γ (.app unpacked (.app packed (.var 0))) = .ok representation ∧
    ∀ b, (Machine.new sig).Returns [] (.byte b)
      ⟨(Term.app unpacked (.app packed (.var 0))).erase, [.byte b], []⟩ := by
  intro address d sig arguments representation hidden Γ packed unpacked
  have hsig : sig.Checked := .addType address .empty rfl
  have he : sig.types.get? address = some ⟨d, d.kind⟩ := rfl
  have harguments : List.Forall₂ (fun a k => sig.kindOf Γ.kinds a = .ok k) arguments d.params :=
    .cons rfl (.cons rfl .nil)
  have fits : Γ.kinds.length + sig.nesting + (arguments.map Ty.nesting).sum ≤ maxIndex := by decide
  have himage : d.body.substitute (Ty.instantiations arguments) = representation := by decide
  obtain ⟨hpacked, hunpacked, hundoes, -⟩ := hsig.opaque_sides he harguments fits
  rw [himage] at hpacked hunpacked hundoes
  refine ⟨⟨hsig, he, harguments, fits⟩, himage, hpacked, hunpacked, hundoes.typeOf_eq _ rfl, ?_⟩
  intro b
  refine (hundoes.returns_iff (.var 0) (.new sig) .new [.byte b] [] (.byte b)).mpr ?_
  refine .step ?_ rfl (.here ⟨rfl, rfl⟩)
  rintro w ⟨-, hw⟩
  cases hw

end Signature

end AddressedF
