import AddressedF.Proofs.Numerals
import AddressedF.Surface.Elaboration

/-!
# Soundness of Elaboration

What elaboration returns, the core calculus accepts, with the same kind or type.  Elaboration takes the
parameter types of functions from expected types without looking at their kinds, so the induction has to know
that every expected type has kind `*` where it is used.

## Main Definitions

* `Surface.Term.nesting`: how many quantifiers a named term may add to the types it is built from
* `Signature.Elaborated`: what elaboration guarantees of a core term and its type

## Main Results

* `Signature.elaborateTy_sound`, `Signature.elaborate_sound`: elaboration in any scope
* `Signature.Checked.elaboration_sound`: elaboration of closed types, definitions and terms
-/

namespace AddressedF

/-- How many quantifiers stand inside each other. -/
def Surface.Ty.nesting : Surface.Ty → Nat
  | .con _ | .ref _ | .var _ => 0
  | .app f a => max f.nesting a.nesting
  | .all _ _ body => body.nesting + 1

/-- How many quantifiers a named term may add to those of its scope: the ones in its types, and one for every
type that is abstracted. -/
def Surface.Term.nesting : Surface.Term → Nat
  | .ref _ | .var _ | .pack _ | .unpack _ => 0
  | .app f a => f.nesting + a.nesting
  | .lam _ (some t) body => t.nesting + body.nesting
  | .lam _ none body => body.nesting
  | .tapp f t => f.nesting + t.nesting
  | .tlam _ _ body => body.nesting + 1
  | .ann t type => type.nesting + t.nesting

namespace Scope

variable {scope : Scope} {name : String} {i : Nat} {k : Kind} {T : Ty}

theorem getElem?_context_kinds (h : scope.lookupKind? name = some (i, k)) :
    scope.context.kinds[i]? = some k :=
  getElem?_of_lookupIndexed? h

theorem lookup?_context (h : scope.lookupType? name = some (i, T)) :
    scope.context.lookup? i = some T := by
  obtain ⟨⟨j, b⟩, hb, heq⟩ := Option.map_eq_some_iff.mp h
  cases heq
  rw [Context.lookup?]
  refine Option.map_eq_some_iff.mpr ⟨b, getElem?_of_lookupIndexed? hb, ?_⟩
  rw [context, List.length_map]

end Scope

theorem liftCore_eq_ok_iff {α : Type} {x : Except TypeError α} {a : α} :
    liftCore x = .ok a ↔ x = .ok a := by
  cases x <;> simp [liftCore]

/-- A term is accepted with the type that was found, which is the expected one if there is one. -/
theorem settle_eq_ok_iff {expected : Option Ty} {t t' : Term} {found T : Ty} :
    settle expected t found = .ok (t', T) ↔
      t = t' ∧ found = T ∧ ∀ E ∈ expected, found = E := by
  cases expected with
  | none => simp [settle]
  | some E =>
    rw [settle, bind_eq_ok_iff]
    constructor
    · rintro ⟨_, hexpect, h⟩
      cases pure_eq_ok_iff.mp h
      refine ⟨rfl, rfl, ?_⟩
      intro E' hE'
      cases hE'
      exact expectType_eq_ok_iff.mp (liftCore_eq_ok_iff.mp hexpect)
    · rintro ⟨rfl, rfl, h⟩
      exact ⟨(), liftCore_eq_ok_iff.mpr (expectType_eq_ok_iff.mpr (h E rfl)), rfl⟩

theorem expectedBody?_eq_some {k : Kind} {expected : Option Ty} {body : Ty}
    (h : expectedBody? k expected = some body) : expected = some (.all k body) := by
  unfold expectedBody? at h
  split at h
  · split at h
    · rename_i hk
      cases h
      rw [hk]
    · cases h
  · cases h

namespace Signature

variable {sig : Signature} {scope : Scope} {bound : Nat}

/-! ## Types -/

/-- The core type of a named type has the kind that elaboration found. -/
theorem elaborateTy_sound {s : Surface.Ty} {c : Ty} {k : Kind}
    (h : sig.elaborateTy scope s = .ok (c, k)) :
    sig.kindOf scope.context.kinds c = .ok k ∧ c.nesting = s.nesting := by
  induction s generalizing scope c k with
  | con =>
    cases h
    exact ⟨kindOf_con _, rfl⟩
  | ref address =>
    rw [elaborateTy] at h
    split at h
    · rename_i hk
      cases h
      exact ⟨kindOf_ref_iff.mpr hk, rfl⟩
    · cases h
  | var name =>
    rw [elaborateTy] at h
    split at h
    · rename_i hi
      cases h
      exact ⟨kindOf_var_iff.mpr (Scope.getElem?_context_kinds hi), rfl⟩
    · cases h
  | app f a ihf iha =>
    rw [elaborateTy] at h
    obtain ⟨⟨f', kf⟩, hf, h⟩ := bind_eq_ok_iff.mp h
    cases kf with
    | star =>
      simp only at h
      split at h <;> cases h
    | arrow domain codomain =>
      obtain ⟨⟨a', found⟩, ha, h⟩ := bind_eq_ok_iff.mp h
      obtain ⟨_, hexpect, h⟩ := bind_eq_ok_iff.mp h
      cases pure_eq_ok_iff.mp h
      have heq := expectKind_eq_ok_iff.mp (liftCore_eq_ok_iff.mp hexpect)
      subst heq
      obtain ⟨hkf, hnf⟩ := ihf hf
      obtain ⟨hka, hna⟩ := iha ha
      exact ⟨kindOf_app_iff.mpr ⟨_, hkf, hka⟩, by rw [Ty.nesting, hnf, hna, Surface.Ty.nesting]⟩
  | all name kind body ih =>
    rw [elaborateTy] at h
    obtain ⟨⟨body', found⟩, hbody, h⟩ := bind_eq_ok_iff.mp h
    obtain ⟨_, hexpect, h⟩ := bind_eq_ok_iff.mp h
    cases pure_eq_ok_iff.mp h
    have heq := expectKind_eq_ok_iff.mp (liftCore_eq_ok_iff.mp hexpect)
    subst heq
    obtain ⟨hkind, hnesting⟩ := ih hbody
    exact ⟨kindOf_all_iff.mpr ⟨hkind, rfl⟩, by rw [Ty.nesting, hnesting, Surface.Ty.nesting]⟩

theorem elaborateTyAt_sound {s : Surface.Ty} {c : Ty} {k : Kind}
    (h : sig.elaborateTyAt scope s k = .ok c) :
    sig.kindOf scope.context.kinds c = .ok k ∧ c.nesting = s.nesting := by
  obtain ⟨⟨c', found⟩, hc, h⟩ := bind_eq_ok_iff.mp h
  obtain ⟨_, hexpect, h⟩ := bind_eq_ok_iff.mp h
  cases pure_eq_ok_iff.mp h
  have heq := expectKind_eq_ok_iff.mp (liftCore_eq_ok_iff.mp hexpect)
  subst heq
  exact elaborateTy_sound hc

/-- Parameters come into scope from the first, so the last one is innermost. -/
theorem kinds_foldl_pushKind (params : List (String × Kind)) (scope : Scope) :
    (params.foldl (fun scope p => scope.pushKind p.1 p.2) scope).context.kinds =
      (params.map Prod.snd).reverse ++ scope.context.kinds := by
  induction params generalizing scope with
  | nil => rfl
  | cons p params ih =>
    rw [List.foldl_cons, ih, List.map_cons, List.reverse_cons, List.append_assoc]
    rfl

theorem elaborateDef_sound {s : Surface.TypeDef} {d : TypeDef} {k : Kind}
    (h : sig.elaborateDef s = .ok (d, k)) : sig.kindOfDef d = .ok k := by
  obtain ⟨body, hbody, h⟩ := bind_eq_ok_iff.mp h
  cases pure_eq_ok_iff.mp h
  have hkind := (elaborateTyAt_sound hbody).1
  rw [kinds_foldl_pushKind, Scope.context, Scope.empty, List.map_nil, List.append_nil] at hkind
  exact kindOfDef_eq_ok_iff.mpr ⟨hkind, rfl⟩

/-! ## What an elaboration says about the parts of a term -/

variable {expected : Option Ty} {c : Term} {T : Ty}

section

attribute [local simp] elaborate

theorem of_elaborate_ref {address : Address}
    (h : sig.elaborate scope expected (.ref address) = .ok (c, T)) :
    ∃ A, sig.typeAt? address = some A ∧ settle expected (.ref address) A = .ok (c, T) := by
  rw [elaborate] at h
  split at h
  · rename_i A hA
    exact ⟨A, hA, h⟩
  · cases h

theorem of_elaborate_var {name : String}
    (h : sig.elaborate scope expected (.var name) = .ok (c, T)) :
    ∃ i A, scope.lookupType? name = some (i, A) ∧ settle expected (.var i) A = .ok (c, T) := by
  rw [elaborate] at h
  split at h
  · rename_i i A hi
    exact ⟨i, A, hi, h⟩
  · cases h

theorem of_elaborate_app {f a : Surface.Term}
    (h : sig.elaborate scope expected (.app f a) = .ok (c, T)) :
    ∃ f' a' D A, sig.elaborate scope none f = .ok (f', .arrow D A) ∧
      (∃ D', sig.elaborate scope (some D) a = .ok (a', D')) ∧
      settle expected (.app f' a') A = .ok (c, T) := by
  rw [elaborate] at h
  obtain ⟨⟨f', F⟩, hf, h⟩ := bind_eq_ok_iff.mp h
  dsimp only at h
  split at h
  · rename_i D A hF
    obtain ⟨⟨a', D'⟩, ha, h⟩ := bind_eq_ok_iff.mp h
    rw [Ty.eq_arrow_of_asArrow? hF] at hf
    exact ⟨f', a', D, A, hf, ⟨D', ha⟩, h⟩
  · split at h <;> cases h

theorem of_elaborate_lam_some {name : String} {t : Surface.Ty} {body : Surface.Term}
    (h : sig.elaborate scope expected (.lam name (some t) body) = .ok (c, T)) :
    ∃ D body' A, sig.elaborateTyAt scope t .star = .ok D ∧
      sig.elaborate (scope.pushType name D) none body = .ok (body', A) ∧
      settle expected (.lam D body') (.arrow D A) = .ok (c, T) := by
  rw [elaborate] at h
  obtain ⟨D, hD, h⟩ := bind_eq_ok_iff.mp h
  obtain ⟨⟨body', A⟩, hbody, h⟩ := bind_eq_ok_iff.mp h
  exact ⟨D, body', A, hD, hbody, h⟩

/-- A function without a parameter type has the type that is expected. -/
theorem of_elaborate_lam_none {name : String} {body : Surface.Term}
    (h : sig.elaborate scope expected (.lam name none body) = .ok (c, T)) :
    ∃ D A body', expected = some (.arrow D A) ∧
      (∃ A', sig.elaborate (scope.pushType name D) (some A) body = .ok (body', A')) ∧
      c = .lam D body' ∧ T = .arrow D A := by
  rw [elaborate.eq_def] at h
  dsimp only at h
  split at h
  · cases h
  · rename_i E
    split at h
    · rename_i D A hE
      obtain ⟨⟨body', A'⟩, hbody, h⟩ := bind_eq_ok_iff.mp h
      cases pure_eq_ok_iff.mp h
      have hT := Ty.eq_arrow_of_asArrow? hE
      exact ⟨D, A, body', congrArg some hT, ⟨A', hbody⟩, rfl, hT⟩
    · cases h

theorem of_elaborate_tapp {f : Surface.Term} {t : Surface.Ty}
    (h : sig.elaborate scope expected (.tapp f t) = .ok (c, T)) :
    ∃ f' k B A, sig.elaborate scope none f = .ok (f', .all k B) ∧
      sig.elaborateTyAt scope t k = .ok A ∧
      settle expected (.tapp f' A) (B.instantiate A) = .ok (c, T) := by
  rw [elaborate] at h
  obtain ⟨⟨f', F⟩, hf, h⟩ := bind_eq_ok_iff.mp h
  dsimp only at h
  split at h
  · rename_i k B
    obtain ⟨A, hA, h⟩ := bind_eq_ok_iff.mp h
    exact ⟨f', k, B, A, hf, hA, h⟩
  · split at h <;> cases h

theorem of_elaborate_tlam {name : String} {k : Kind} {body : Surface.Term}
    (h : sig.elaborate scope expected (.tlam name k body) = .ok (c, T)) :
    ∃ body' A, sig.elaborate (scope.pushKind name k) (expectedBody? k expected) body = .ok (body', A) ∧
      settle expected (.tlam k body') (.all k A) = .ok (c, T) := by
  rw [elaborate] at h
  obtain ⟨⟨body', A⟩, hbody, h⟩ := bind_eq_ok_iff.mp h
  exact ⟨body', A, hbody, h⟩

theorem of_elaborate_ann {t : Surface.Term} {type : Surface.Ty}
    (h : sig.elaborate scope expected (.ann t type) = .ok (c, T)) :
    ∃ A t', sig.elaborateTyAt scope type .star = .ok A ∧
      (∃ A', sig.elaborate scope (some A) t = .ok (t', A')) ∧ settle expected t' A = .ok (c, T) := by
  rw [elaborate] at h
  obtain ⟨A, hA, h⟩ := bind_eq_ok_iff.mp h
  obtain ⟨⟨t', A'⟩, ht, h⟩ := bind_eq_ok_iff.mp h
  exact ⟨A, t', hA, ⟨A', ht⟩, h⟩

end

/-! ## Terms -/

/-- What elaboration guarantees of a core term and its type, if `expected` is what the type should be. -/
structure Elaborated (sig : Signature) (Γ : Context) (bound : Nat) (expected : Option Ty) (c : Term)
    (T : Ty) : Prop where
  typeOf : sig.typeOf Γ c = .ok T
  kindOf : sig.kindOf Γ.kinds T = .ok .star
  nesting_le : T.nesting ≤ bound
  eq_expected : ∀ E ∈ expected, T = E

/-- Settling on a type that was found by itself. -/
theorem Elaborated.settle {Γ : Context} {c' : Term} {T' : Ty}
    (hT : sig.typeOf Γ c = .ok T) (hkind : sig.kindOf Γ.kinds T = .ok .star)
    (hnesting : T.nesting ≤ bound) (h : AddressedF.settle expected c T = .ok (c', T')) :
    sig.Elaborated Γ bound expected c' T' := by
  obtain ⟨rfl, rfl, hexpected⟩ := settle_eq_ok_iff.mp h
  exact ⟨hT, hkind, hnesting, hexpected⟩

/-- Settling on the type of a term that has no parts. -/
theorem Elaborated.settle_typeOf {Γ : Context} {c' : Term} {T' : Ty} (hsig : sig.Sound bound)
    (hΓ : Γ.Sound sig bound) (fits : Γ.kinds.length + bound ≤ maxIndex) (hc : c.nesting = 0)
    (hT : sig.typeOf Γ c = .ok T) (h : AddressedF.settle expected c T = .ok (c', T')) :
    sig.Elaborated Γ bound expected c' T' := by
  obtain ⟨hkind, hnesting⟩ := kindOf_typeOf hsig hΓ (by rwa [hc]) hT
  rw [hc] at hnesting
  exact .settle hT hkind hnesting h

/-- Every type that a term is expected to have is a type of terms where it is expected. -/
def Expects (sig : Signature) (Γ : Context) (bound : Nat) (expected : Option Ty) : Prop :=
  ∀ E ∈ expected, sig.kindOf Γ.kinds E = .ok .star ∧ E.nesting ≤ bound

theorem Expects.none {Γ : Context} : sig.Expects Γ bound none := by
  intro E hE
  cases hE

theorem Expects.some {Γ : Context} {E : Ty} (hkind : sig.kindOf Γ.kinds E = .ok .star)
    (hnesting : E.nesting ≤ bound) : sig.Expects Γ bound (some E) := by
  intro E' hE'
  cases hE'
  exact ⟨hkind, hnesting⟩

/-- The body of a polymorphic term is expected to have the body of the expected type. -/
theorem Expects.body {Γ : Context} {k : Kind}
    (h : sig.Expects Γ bound expected) : sig.Expects (Γ.pushKind k) bound (expectedBody? k expected) := by
  intro E hE
  obtain ⟨hkind, hnesting⟩ := h _ (expectedBody?_eq_some hE)
  exact ⟨(kindOf_all_iff.mp hkind).1, Nat.le_of_succ_le hnesting⟩

/-- What elaboration returns is accepted in the context without names.  Types come into a context without
another look at their kinds, so an expected type has to be one of kind `*` in that context. -/
theorem elaborate_sound {s : Surface.Term} (hsig : sig.Sound bound)
    (hscope : scope.context.Sound sig bound) (hexpected : sig.Expects scope.context bound expected)
    (fits : scope.context.kinds.length + bound + s.nesting ≤ maxIndex)
    (h : sig.elaborate scope expected s = .ok (c, T)) :
    sig.Elaborated scope.context (bound + s.nesting) expected c T := by
  -- the bound grows by the types of one part before the next part is elaborated
  induction s generalizing scope expected bound c T with
  | ref address =>
    obtain ⟨A, hA, hsettle⟩ := of_elaborate_ref h
    have hT : sig.typeOf scope.context (.ref address) = .ok A := by rw [typeOf, hA]
    exact .settle_typeOf hsig hscope fits rfl hT hsettle
  | var name =>
    obtain ⟨i, A, hi, hsettle⟩ := of_elaborate_var h
    have hT : sig.typeOf scope.context (.var i) = .ok A :=
      typeOf_var_iff.mpr (Scope.lookup?_context hi)
    exact .settle_typeOf hsig hscope fits rfl hT hsettle
  | pack address =>
    obtain ⟨A, hA, hsettle⟩ := bind_eq_ok_iff.mp h
    have hT : sig.typeOf scope.context (.pack address) = .ok A := liftCore_eq_ok_iff.mp hA
    exact .settle_typeOf hsig hscope fits rfl hT hsettle
  | unpack address =>
    obtain ⟨A, hA, hsettle⟩ := bind_eq_ok_iff.mp h
    have hT : sig.typeOf scope.context (.unpack address) = .ok A := liftCore_eq_ok_iff.mp hA
    exact .settle_typeOf hsig hscope fits rfl hT hsettle
  | app f a ihf iha =>
    simp only [Surface.Term.nesting] at fits ⊢
    obtain ⟨f', a', D, A, hf, ⟨D', ha⟩, hsettle⟩ := of_elaborate_app h
    obtain ⟨hfT, hfkind, hfnesting, -⟩ := ihf hsig hscope .none (by omega) hf
    obtain ⟨hD, hA, -⟩ := kindOf_arrow_iff.mp hfkind
    simp only [Ty.nesting] at hfnesting
    have hle := Nat.le_add_right bound f.nesting
    have ha' := iha (hsig.mono hle) (hscope.mono hle) (.some hD (by omega)) (by omega) ha
    -- the argument has the type that was expected of it
    obtain rfl := ha'.eq_expected D rfl
    exact .settle (typeOf_app_iff.mpr ⟨D', hfT, ha'.typeOf⟩) hA (by omega) hsettle
  | lam name domain body ih =>
    cases domain with
    | some t =>
      simp only [Surface.Term.nesting] at fits ⊢
      obtain ⟨D, body', A, hD, hbody, hsettle⟩ := of_elaborate_lam_some h
      obtain ⟨hkind, hnesting⟩ := elaborateTyAt_sound hD
      have hle := Nat.le_add_right bound t.nesting
      have hscope' := (hscope.mono hle).pushType hkind (by omega)
      rw [← Scope.context_pushType scope name] at hscope'
      have hbody' := ih (hsig.mono hle) hscope' .none
        (by simp only [Scope.context_pushType, Context.pushType]; omega) hbody
      rw [Scope.context_pushType] at hbody'
      have hT := typeOf_lam_iff.mpr ⟨A, hkind, hbody'.typeOf, rfl⟩
      have hle' := hbody'.nesting_le
      exact .settle hT (kindOf_arrow_iff.mpr ⟨hkind, hbody'.kindOf, rfl⟩)
        (by simp only [Ty.nesting]; omega) hsettle
    | none =>
      simp only [Surface.Term.nesting] at fits ⊢
      obtain ⟨D, A, body', rfl, ⟨A', hbody⟩, rfl, rfl⟩ := of_elaborate_lam_none h
      -- nobody has looked at the kind of `D` but whoever expected the function
      obtain ⟨hkind, hnesting⟩ := hexpected _ rfl
      obtain ⟨hD, hA, -⟩ := kindOf_arrow_iff.mp hkind
      simp only [Ty.nesting] at hnesting
      have hscope' := hscope.pushType hD (by omega)
      rw [← Scope.context_pushType scope name] at hscope'
      have hbody' := ih hsig hscope' (.some (by rwa [Scope.context_pushType]) (by omega))
        (by simp only [Scope.context_pushType, Context.pushType]; omega) hbody
      rw [Scope.context_pushType] at hbody'
      obtain rfl := hbody'.eq_expected A rfl
      exact ⟨typeOf_lam_iff.mpr ⟨A', hD, hbody'.typeOf, rfl⟩, hkind,
        by simp only [Ty.nesting]; omega, fun E hE => Option.some.inj hE⟩
  | tapp f t ih =>
    simp only [Surface.Term.nesting] at fits ⊢
    obtain ⟨f', k, B, A, hf, hA, hsettle⟩ := of_elaborate_tapp h
    obtain ⟨hfT, hfkind, hfnesting, -⟩ := ih hsig hscope .none (by omega) hf
    obtain ⟨hkind, hnesting⟩ := elaborateTyAt_sound hA
    obtain ⟨hB, -⟩ := kindOf_all_iff.mp hfkind
    simp only [Ty.nesting] at hfnesting
    have hle := nesting_instantiate_le hB hkind (by omega)
    have hT := typeOf_tapp_iff.mpr ⟨k, B, hfT, hkind, rfl⟩
    exact .settle hT (kindOf_instantiate hB hkind (by omega)) (by omega) hsettle
  | tlam name k body ih =>
    simp only [Surface.Term.nesting] at fits ⊢
    obtain ⟨body', A, hbody, hsettle⟩ := of_elaborate_tlam h
    have hscope' : (scope.pushKind name k).context.Sound sig bound := hscope.pushKind k
    have hbody' := ih hsig hscope' hexpected.body
      (by simp only [Scope.context_pushKind, Context.pushKind, List.length_cons]; omega) hbody
    rw [Scope.context_pushKind] at hbody'
    have hT := typeOf_tlam_iff.mpr ⟨A, hbody'.typeOf, rfl⟩
    have hle := hbody'.nesting_le
    exact .settle hT (kindOf_all_iff.mpr ⟨hbody'.kindOf, rfl⟩) (by simp only [Ty.nesting]; omega) hsettle
  | ann t type ih =>
    simp only [Surface.Term.nesting] at fits ⊢
    obtain ⟨A, t', hA, ⟨A', ht⟩, hsettle⟩ := of_elaborate_ann h
    obtain ⟨hkind, hnesting⟩ := elaborateTyAt_sound hA
    have hle := Nat.le_add_right bound type.nesting
    have ht' := ih (hsig.mono hle) (hscope.mono hle) (.some hkind (by omega)) (by omega) ht
    obtain rfl := ht'.eq_expected A rfl
    exact .settle ht'.typeOf hkind (by omega) hsettle

/-! ## Closed types, definitions and terms -/

/-- Over a checked signature, the core calculus gives what elaboration returns the kind or the type that
elaboration returns with it. -/
theorem Checked.elaboration_sound (hsig : sig.Checked) :
    (∀ s c k, sig.elaborateTy .empty s = .ok (c, k) → sig.kindOf [] c = .ok k) ∧
    (∀ s d k, sig.elaborateDef s = .ok (d, k) → sig.kindOfDef d = .ok k) ∧
    ∀ (s : Surface.Term) c T, sig.nesting + s.nesting ≤ maxIndex →
      sig.elaborate .empty none s = .ok (c, T) → sig.typeOf .empty c = .ok T := by
  refine ⟨?_, ?_, ?_⟩
  · intro s c k h
    exact (elaborateTy_sound h).1
  · intro s d k h
    exact elaborateDef_sound h
  intro s c T fits h
  have hsound := hsig.sound (by omega)
  have hfits : Scope.empty.context.kinds.length + sig.nesting + s.nesting ≤ maxIndex := by
    simpa [Scope.context, Scope.empty] using fits
  exact (elaborate_sound hsound .empty .none hfits h).typeOf

/-- The type of the outer `x` leaves the scope of its name, and that of the inner one is found. -/
theorem elaboration_sound_shadowed :
    let sig := Numeral.signature ⟨.replicate 32 0⟩ 2
    let inner := Surface.Term.lam "x" none (.ann (.var "x") (.var "a"))
    let outer := Surface.Term.lam "f" (some (.app (.app (.con .arrow) (.var "a")) (.var "a"))) (.var "x")
    let s := Surface.Term.tlam "a" .star (.lam "x" (some (.var "a")) (.tlam "a" .star (.app outer inner)))
    let c := Term.tlam .star (.lam (.var 0) (.tlam .star
      (.app (.lam (.arrow (.var 0) (.var 0)) (.var 1)) (.lam (.var 0) (.var 0)))))
    let T := Ty.all .star (.arrow (.var 0) (.all .star (.var 1)))
    sig.elaborate .empty none s = .ok (c, T) ∧ sig.typeOf .empty c = .ok T := by
  intro sig inner outer s c T
  have h : sig.elaborate .empty none s = .ok (c, T) := by decide +kernel
  have hchecked := Numeral.checked_signature ⟨.replicate 32 0⟩ 2
  exact ⟨h, hchecked.elaboration_sound.2.2 s c T (by decide +kernel) h⟩

end Signature

end AddressedF
