import AddressedF.Proofs.Kinding
import AddressedF.Typing.Basic

/-!
# The Theory of Typing

The type of a term has kind `*` in the context of the term.  The statement needs two invariants: every type
in the context has kind `*` where it was written, and so has every type in the signature.  Both go together
with a bound on the quantifiers that stand inside each other, because a type is shifted when it is looked
up and the indices of variables have a largest one.

## Main Definitions

* `Context.Sound`, `Signature.Sound`: the invariants
* `Term.nesting`: how many quantifiers a term may add to the types it is built from

## Main Results

* `Signature.kindOf_typeOf`: the types of terms have kind `*`
-/

namespace AddressedF

/-- How many quantifiers a term may add to those of its context: the ones in its types, and one for every
type that is abstracted. -/
def Term.nesting : Term → Nat
  | .var _ | .ref _ | .pack _ | .unpack _ => 0
  | .app f a => max f.nesting a.nesting
  | .lam t body => t.nesting + body.nesting
  | .tapp f t => f.nesting + t.nesting
  | .tlam _ body => body.nesting + 1

/-- The quantifiers in the types of the two sides of a defined type. -/
def TypeDef.nesting (d : TypeDef) : Nat :=
  d.params.length + d.body.nesting

theorem Ty.nesting_quantify (kinds : List Kind) (t : Ty) :
    (Ty.quantify kinds t).nesting = kinds.length + t.nesting := by
  induction kinds with
  | nil => rw [Ty.quantify_nil, List.length_nil, Nat.zero_add]
  | cons k kinds ih =>
    rw [Ty.quantify_cons, Ty.nesting, ih, List.length_cons]
    omega

theorem Ty.nesting_apply_var (t : Ty) (indices : List Nat) :
    (t.apply (indices.map .var)).nesting = t.nesting := by
  induction indices generalizing t with
  | nil => rfl
  | cons i indices ih =>
    rw [List.map_cons, Ty.apply_cons, ih]
    exact Nat.max_zero _

/-! ## Sound contexts -/

/-- Every type in a context has kind `*` where it was written, and at most `bound` nested quantifiers. -/
structure Context.Sound (sig : Signature) (bound : Nat) (Γ : Context) : Prop where
  depth_le : ∀ b ∈ Γ.types, b.depth ≤ Γ.kinds.length
  kindOf_type : ∀ b ∈ Γ.types, sig.kindOf (Γ.kinds.drop (Γ.kinds.length - b.depth)) b.type = .ok .star
  nesting_le : ∀ b ∈ Γ.types, b.type.nesting ≤ bound

/-- A type that is looked up in range is moved past the type variables bound since. -/
theorem Binding.typeAt_eq_rename {sig : Signature} {ks : List Kind} {b : Binding} {depth : Nat}
    (hkind : sig.kindOf ks b.type = .ok .star) (hlength : ks.length + (depth - b.depth) = depth)
    (fits : depth + b.type.nesting ≤ maxIndex) :
    b.typeAt depth = b.type.rename (raise (depth - b.depth) 0) := by
  rw [typeAt]
  split
  · rename_i h
    rw [h, Ty.rename_raise_zero]
  · exact Signature.shift_eq_rename _ _ hkind (by omega)

namespace Context.Sound

variable {sig : Signature} {bound bound' i : Nat} {Γ : Context} {t : Ty} {b : Binding}

theorem empty : Context.empty.Sound sig bound :=
  ⟨fun _ h => (nomatch h), fun _ h => (nomatch h), fun _ h => (nomatch h)⟩

theorem mono (h : Γ.Sound sig bound) (hle : bound ≤ bound') : Γ.Sound sig bound' :=
  ⟨h.depth_le, h.kindOf_type, fun b hb => Nat.le_trans (h.nesting_le b hb) hle⟩

theorem pushKind (h : Γ.Sound sig bound) (k : Kind) : (Γ.pushKind k).Sound sig bound := by
  refine ⟨?_, ?_, h.nesting_le⟩
  · intro b hb
    exact Nat.le_succ_of_le (h.depth_le b hb)
  · intro b hb
    -- what is dropped now is what was dropped before and the new variable
    have hdepth := h.depth_le b hb
    have hdrop : (Γ.pushKind k).kinds.length - b.depth = Γ.kinds.length - b.depth + 1 := by
      simp only [Context.pushKind, List.length_cons]
      omega
    rw [hdrop]
    exact h.kindOf_type b hb

theorem pushType (h : Γ.Sound sig bound) (hkind : sig.kindOf Γ.kinds t = .ok .star)
    (hnesting : t.nesting ≤ bound) : (Γ.pushType t).Sound sig bound := by
  constructor <;> intro b hb <;> rcases List.mem_cons.mp hb with rfl | hb
  · exact Nat.le_refl _
  · exact h.depth_le b hb
  · simpa [Context.pushType] using hkind
  · exact h.kindOf_type b hb
  · exact hnesting
  · exact h.nesting_le b hb

/-- A binding as it is seen from inside of all binders entered since. -/
theorem typeAt_eq_rename (h : Γ.Sound sig bound) (hb : b ∈ Γ.types)
    (fits : Γ.kinds.length + bound ≤ maxIndex) :
    b.typeAt Γ.kinds.length = b.type.rename (raise (Γ.kinds.length - b.depth) 0) := by
  have hdepth := h.depth_le b hb
  have hnesting := h.nesting_le b hb
  refine Binding.typeAt_eq_rename (h.kindOf_type b hb) ?_ (by omega)
  rw [List.length_drop]
  omega

/-- A type variable bound since a type was written is in front of those the type was written with. -/
theorem kindOf_typeAt (h : Γ.Sound sig bound) (hb : b ∈ Γ.types)
    (fits : Γ.kinds.length + bound ≤ maxIndex) :
    sig.kindOf Γ.kinds (b.typeAt Γ.kinds.length) = .ok .star := by
  rw [h.typeAt_eq_rename hb fits]
  have hkind := Signature.kindOf_rename_raise (Γ.kinds.take (Γ.kinds.length - b.depth))
    (h.kindOf_type b hb)
  rwa [List.take_append_drop, List.length_take, Nat.min_eq_left (Nat.sub_le _ _)] at hkind

theorem nesting_typeAt_le (h : Γ.Sound sig bound) (hb : b ∈ Γ.types)
    (fits : Γ.kinds.length + bound ≤ maxIndex) : (b.typeAt Γ.kinds.length).nesting ≤ bound := by
  rw [h.typeAt_eq_rename hb fits, Ty.nesting_rename]
  exact h.nesting_le b hb

theorem lookup? (h : Γ.Sound sig bound) (fits : Γ.kinds.length + bound ≤ maxIndex)
    (hlookup : Γ.lookup? i = some t) : sig.kindOf Γ.kinds t = .ok .star ∧ t.nesting ≤ bound := by
  obtain ⟨b, hb, rfl⟩ := Option.map_eq_some_iff.mp hlookup
  have hmem := List.mem_of_getElem? hb
  exact ⟨h.kindOf_typeAt hmem fits, h.nesting_typeAt_le hmem fits⟩

end Context.Sound

/-! ## Sound signatures -/

/-- Every definition in a signature has a body of kind `*` and the kind of its parameters, every term has a
type of kind `*`, and none of the types has more than `bound` nested quantifiers. -/
structure Signature.Sound (sig : Signature) (bound : Nat) : Prop where
  kind_eq : ∀ {address e}, sig.types.get? address = some e → e.kind = e.definition.kind
  kindOf_body : ∀ {address e}, sig.types.get? address = some e →
    sig.kindOf e.definition.params.reverse e.definition.body = .ok .star
  nesting_definition_le : ∀ {address e}, sig.types.get? address = some e → e.definition.nesting ≤ bound
  kindOf_type : ∀ {address e}, sig.terms.get? address = some e → sig.kindOf [] e.type = .ok .star
  nesting_type_le : ∀ {address e}, sig.terms.get? address = some e → e.type.nesting ≤ bound

namespace Signature

variable {sig : Signature} {bound : Nat} {Γ : Context} {f a body t : Term} {A T : Ty} {k : Kind}
  {address : Address} {e : TypeEntry}

/-! ## What a type says about the parts of a term -/

section

attribute [local simp] typeOf

theorem typeOf_var_iff {i : Nat} : sig.typeOf Γ (.var i) = .ok T ↔ Γ.lookup? i = some T := by
  cases h : Γ.lookup? i <;> simp [h]

theorem typeOf_ref_iff :
    sig.typeOf Γ (.ref address) = .ok T ↔
      ∃ entry, sig.terms.get? address = some entry ∧ entry.type = T := by
  cases h : sig.terms.get? address <;> simp [typeAt?, h]

end

theorem typeOf_lam_iff :
    sig.typeOf Γ (.lam A body) = .ok T ↔
      ∃ B, sig.kindOf Γ.kinds A = .ok .star ∧ sig.typeOf (Γ.pushType A) body = .ok B ∧
        T = .arrow A B := by
  rw [typeOf, bind_eq_ok_iff]
  constructor
  · rintro ⟨_, hkind, h⟩
    obtain ⟨B, hbody, hT⟩ := bind_eq_ok_iff.mp h
    exact ⟨B, checkKind_eq_ok_iff.mp hkind, hbody, (pure_eq_ok_iff.mp hT).symm⟩
  · rintro ⟨B, hkind, hbody, rfl⟩
    exact ⟨(), checkKind_eq_ok_iff.mpr hkind, bind_eq_ok_iff.mpr ⟨B, hbody, rfl⟩⟩

theorem typeOf_tlam_iff :
    sig.typeOf Γ (.tlam k body) = .ok T ↔
      ∃ B, sig.typeOf (Γ.pushKind k) body = .ok B ∧ T = .all k B := by
  rw [typeOf, bind_eq_ok_iff]
  constructor
  · rintro ⟨B, hbody, hT⟩
    exact ⟨B, hbody, (pure_eq_ok_iff.mp hT).symm⟩
  · rintro ⟨B, hbody, rfl⟩
    exact ⟨B, hbody, rfl⟩

theorem typeOf_app_iff :
    sig.typeOf Γ (.app f a) = .ok T ↔
      ∃ D, sig.typeOf Γ f = .ok (.arrow D T) ∧ sig.typeOf Γ a = .ok D := by
  rw [typeOf, bind_eq_ok_iff]
  constructor
  · rintro ⟨F, hf, h⟩
    split at h
    · rename_i D C hF
      obtain ⟨D', ha, h⟩ := bind_eq_ok_iff.mp h
      obtain ⟨_, hexpect, hC⟩ := bind_eq_ok_iff.mp h
      rw [expectType_eq_ok_iff.mp hexpect] at ha
      rw [Ty.eq_arrow_of_asArrow? hF, pure_eq_ok_iff.mp hC] at hf
      exact ⟨D, hf, ha⟩
    · cases h
  · rintro ⟨D, hf, ha⟩
    refine ⟨_, hf, bind_eq_ok_iff.mpr ⟨D, ha, ?_⟩⟩
    exact bind_eq_ok_iff.mpr ⟨(), expectType_eq_ok_iff.mpr rfl, rfl⟩

theorem typeOf_tapp_iff :
    sig.typeOf Γ (.tapp f A) = .ok T ↔
      ∃ k B, sig.typeOf Γ f = .ok (.all k B) ∧ sig.kindOf Γ.kinds A = .ok k ∧ T = B.instantiate A := by
  rw [typeOf, bind_eq_ok_iff]
  constructor
  · rintro ⟨F, hf, h⟩
    split at h
    · rename_i k B
      obtain ⟨_, hkind, hT⟩ := bind_eq_ok_iff.mp h
      exact ⟨k, B, hf, checkKind_eq_ok_iff.mp hkind, (pure_eq_ok_iff.mp hT).symm⟩
    · cases h
  · rintro ⟨k, B, hf, hkind, rfl⟩
    exact ⟨_, hf, bind_eq_ok_iff.mpr ⟨(), checkKind_eq_ok_iff.mpr hkind, rfl⟩⟩

/-- What is built from the definition at an address. -/
theorem definitionOf_bind_eq_ok_iff {side : TypeDef → Ty} :
    (do let d ← sig.definitionOf address; return side d) = .ok T ↔
      ∃ e, sig.types.get? address = some e ∧ T = side e.definition := by
  rw [bind_eq_ok_iff, definitionOf]
  constructor
  · rintro ⟨d, hd, hT⟩
    split at hd
    · rename_i e he
      cases hd
      exact ⟨e, he, (pure_eq_ok_iff.mp hT).symm⟩
    · cases hd
  · rintro ⟨e, he, rfl⟩
    rw [he]
    exact ⟨e.definition, rfl, rfl⟩

theorem packType_eq_ok_iff :
    sig.packType address = .ok T ↔
      ∃ e, sig.types.get? address = some e ∧
        T = .quantify e.definition.params
          (.arrow e.definition.body (e.definition.opaqueType address)) :=
  definitionOf_bind_eq_ok_iff

theorem unpackType_eq_ok_iff :
    sig.unpackType address = .ok T ↔
      ∃ e, sig.types.get? address = some e ∧
        T = .quantify e.definition.params
          (.arrow (e.definition.opaqueType address) e.definition.body) :=
  definitionOf_bind_eq_ok_iff

/-! ## The two sides of a defined type -/

namespace Sound

theorem mono {bound' : Nat} (h : sig.Sound bound) (hle : bound ≤ bound') : sig.Sound bound' where
  kind_eq := h.kind_eq
  kindOf_body := h.kindOf_body
  nesting_definition_le he := Nat.le_trans (h.nesting_definition_le he) hle
  kindOf_type := h.kindOf_type
  nesting_type_le he := Nat.le_trans (h.nesting_type_le he) hle

/-- The opaque type has kind `*` where the parameters of its definition are bound. -/
theorem kindOf_opaqueType (hsig : sig.Sound bound) (h : sig.types.get? address = some e)
    (outer : List Kind) :
    sig.kindOf (e.definition.params.reverse ++ outer) (e.definition.opaqueType address) = .ok .star := by
  have hhead : sig.kindAt? address = some (.ofArguments e.definition.params .star) := by
    rw [kindAt?, h, Option.map_some, hsig.kind_eq h]
    rfl
  refine kindOf_apply (List.forall₂_iff_get.mpr ⟨by simp, ?_⟩) (kindOf_ref_iff.mpr hhead)
  intro i hi hi'
  simp only [List.get_eq_getElem, List.getElem_map, List.getElem_reverse, List.getElem_range,
    List.length_range, kindOf_var_iff]
  rw [List.getElem?_append_left (by rw [List.length_reverse]; omega), List.getElem?_reverse (by omega),
    Nat.sub_sub_self (by omega), List.getElem?_eq_getElem hi']

/-- A function between the two sides of a defined type, for all parameters. -/
theorem kindOf_quantify_arrow (hsig : sig.Sound bound) (h : sig.types.get? address = some e)
    (ks : List Kind) {x y : Ty}
    (hx : x = e.definition.body ∨ x = e.definition.opaqueType address)
    (hy : y = e.definition.body ∨ y = e.definition.opaqueType address) :
    sig.kindOf ks (.quantify e.definition.params (.arrow x y)) = .ok .star ∧
      (Ty.quantify e.definition.params (.arrow x y)).nesting ≤ bound := by
  have hside : ∀ {side : Ty},
      side = e.definition.body ∨ side = e.definition.opaqueType address →
        sig.kindOf (e.definition.params.reverse ++ ks) side = .ok .star ∧
          side.nesting ≤ e.definition.body.nesting := by
    rintro side (rfl | rfl)
    · exact ⟨kindOf_append ks (hsig.kindOf_body h), Nat.le_refl _⟩
    · refine ⟨hsig.kindOf_opaqueType h ks, ?_⟩
      rw [TypeDef.opaqueType, Ty.nesting_apply_var]
      exact Nat.zero_le _
  have hbound := hsig.nesting_definition_le h
  obtain ⟨hkind, hle⟩ := hside hx
  obtain ⟨hkind', hle'⟩ := hside hy
  refine ⟨kindOf_quantify (kindOf_arrow_iff.mpr ⟨hkind, hkind', rfl⟩), ?_⟩
  simp only [TypeDef.nesting] at hbound
  simp only [Ty.nesting_quantify, Ty.nesting]
  omega

end Sound

/-! ## Types of terms have kind `*` -/

/-- The type of a term has kind `*`, and the term adds no more quantifiers to it than its own. -/
theorem kindOf_typeOf (hsig : sig.Sound bound) (hΓ : Γ.Sound sig bound)
    (fits : Γ.kinds.length + bound + t.nesting ≤ maxIndex) (h : sig.typeOf Γ t = .ok T) :
    sig.kindOf Γ.kinds T = .ok .star ∧ T.nesting ≤ bound + t.nesting := by
  induction t generalizing Γ bound T with
  | var i =>
    exact hΓ.lookup? (by omega) (typeOf_var_iff.mp h)
  | ref address =>
    obtain ⟨entry, hentry, rfl⟩ := typeOf_ref_iff.mp h
    exact ⟨kindOf_append Γ.kinds (hsig.kindOf_type hentry), hsig.nesting_type_le hentry⟩
  | pack address =>
    obtain ⟨e, he, rfl⟩ := packType_eq_ok_iff.mp h
    exact hsig.kindOf_quantify_arrow he Γ.kinds (.inl rfl) (.inr rfl)
  | unpack address =>
    obtain ⟨e, he, rfl⟩ := unpackType_eq_ok_iff.mp h
    exact hsig.kindOf_quantify_arrow he Γ.kinds (.inr rfl) (.inl rfl)
  | app f a ihf _ =>
    simp only [Term.nesting] at fits ⊢
    obtain ⟨D, hf, -⟩ := typeOf_app_iff.mp h
    obtain ⟨hkind, hnesting⟩ := ihf hsig hΓ (by omega) hf
    simp only [Ty.nesting] at hnesting
    exact ⟨(kindOf_arrow_iff.mp hkind).2.1, by omega⟩
  | lam A body ih =>
    simp only [Term.nesting] at fits ⊢
    obtain ⟨B, hA, hbody, rfl⟩ := typeOf_lam_iff.mp h
    -- the annotation may nest deeper than every type in the context
    have hsig' := hsig.mono (Nat.le_add_right bound A.nesting)
    have hΓ' := (hΓ.mono (Nat.le_add_right bound A.nesting)).pushType hA (Nat.le_add_left _ _)
    obtain ⟨hkind, hnesting⟩ := ih hsig' hΓ' (by simp only [Context.pushType]; omega) hbody
    refine ⟨kindOf_arrow_iff.mpr ⟨hA, hkind, rfl⟩, ?_⟩
    simp only [Ty.nesting]
    omega
  | tlam k body ih =>
    simp only [Term.nesting] at fits ⊢
    obtain ⟨B, hbody, rfl⟩ := typeOf_tlam_iff.mp h
    obtain ⟨hkind, hnesting⟩ := ih hsig (hΓ.pushKind k)
      (by simp only [Context.pushKind, List.length_cons]; omega) hbody
    refine ⟨kindOf_all_iff.mpr ⟨hkind, rfl⟩, ?_⟩
    simp only [Ty.nesting]
    omega
  | tapp f A ih =>
    simp only [Term.nesting] at fits ⊢
    obtain ⟨k, B, hf, hA, rfl⟩ := typeOf_tapp_iff.mp h
    obtain ⟨hkind, hnesting⟩ := ih hsig hΓ (by omega) hf
    have hB := (kindOf_all_iff.mp hkind).1
    simp only [Ty.nesting] at hnesting
    have hle := nesting_instantiate_le hB hA (by omega)
    exact ⟨kindOf_instantiate hB hA (by omega), by omega⟩

end Signature

end AddressedF
