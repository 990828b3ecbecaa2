import AddressedF.Proofs.Except
import AddressedF.Proofs.Substitution
import AddressedF.Typing.Kinding
import Mathlib.Data.List.Forall2

/-!
# The Theory of Kinding

Kinds survive everything that happens to a type on its way through the checker: more known definitions, more
variables in scope, renaming, and instantiation.

## Main Results

* `Signature.kindOf_mono`: a kind is kept when definitions or outer variables are added
* `Signature.kindOf_rename`, `Signature.kindOf_substitute`: kinds under a change of variables
* `Signature.kindOf_instantiate`: the same for the operation of the checker
* `Signature.kindOf_apply`, `Signature.kindOf_quantify`: kinds of applications and quantifications in a row
-/

namespace AddressedF.Signature

variable {sig : Signature} {ks ks' : List Kind} {k k' : Kind} {t a b f : Ty}

/-! ## What a kind says about the parts of a type -/

theorem checkKind_eq_ok_iff : sig.checkKind ks t k = .ok () ↔ sig.kindOf ks t = .ok k := by
  rw [checkKind, bind_eq_ok_iff]
  constructor
  · rintro ⟨found, hfound, h⟩
    rw [hfound, expectKind_eq_ok_iff.mp h]
  · intro h
    exact ⟨k, h, expectKind_eq_ok_iff.mpr rfl⟩

section

attribute [local simp] kindOf

theorem kindOf_con (c : TyCon) : sig.kindOf ks (.con c) = .ok c.kind := by
  simp

theorem kindOf_var_iff {i : Nat} : sig.kindOf ks (.var i) = .ok k ↔ ks[i]? = some k := by
  cases h : ks[i]? <;> simp [h]

theorem kindOf_ref_iff {address : Address} :
    sig.kindOf ks (.ref address) = .ok k ↔ sig.kindAt? address = some k := by
  cases h : sig.kindAt? address <;> simp [h]

end

theorem kindOf_all_iff :
    sig.kindOf ks (.all k b) = .ok k' ↔ sig.kindOf (k :: ks) b = .ok .star ∧ k' = .star := by
  rw [kindOf, bind_eq_ok_iff]
  constructor
  · rintro ⟨found, hfound, h⟩
    obtain ⟨_, hexpect, hstar⟩ := bind_eq_ok_iff.mp h
    rw [expectKind_eq_ok_iff.mp hexpect] at hfound
    exact ⟨hfound, (pure_eq_ok_iff.mp hstar).symm⟩
  · rintro ⟨hbody, rfl⟩
    exact ⟨.star, hbody, rfl⟩

theorem kindOf_app_iff :
    sig.kindOf ks (.app f a) = .ok k ↔
      ∃ d, sig.kindOf ks f = .ok (.arrow d k) ∧ sig.kindOf ks a = .ok d := by
  rw [kindOf, bind_eq_ok_iff]
  constructor
  · rintro ⟨kf, hf, h⟩
    cases kf with
    | star => cases h
    | arrow d c =>
      obtain ⟨found, hfound, h⟩ := bind_eq_ok_iff.mp h
      obtain ⟨_, hexpect, hc⟩ := bind_eq_ok_iff.mp h
      rw [expectKind_eq_ok_iff.mp hexpect] at hfound
      rw [pure_eq_ok_iff.mp hc] at hf
      exact ⟨d, hf, hfound⟩
  · rintro ⟨d, hf, ha⟩
    refine ⟨_, hf, bind_eq_ok_iff.mpr ⟨d, ha, ?_⟩⟩
    exact bind_eq_ok_iff.mpr ⟨(), expectKind_eq_ok_iff.mpr rfl, rfl⟩

theorem kindOf_arrow_iff :
    sig.kindOf ks (.arrow a b) = .ok k ↔
      sig.kindOf ks a = .ok .star ∧ sig.kindOf ks b = .ok .star ∧ k = .star := by
  simp only [kindOf_app_iff, kindOf_con, TyCon.kind]
  constructor
  · rintro ⟨_, ⟨_, hcon, ha⟩, hb⟩
    cases hcon
    exact ⟨ha, hb, rfl⟩
  · rintro ⟨ha, hb, rfl⟩
    exact ⟨.star, ⟨.star, rfl, ha⟩, hb⟩

/-! ## More definitions, other variables -/

/-- A kind is kept when definitions are added and when variables are added outside of those in scope. -/
theorem kindOf_mono {sig' : Signature}
    (hsig : ∀ address k, sig.kindAt? address = some k → sig'.kindAt? address = some k)
    (hks : ∀ (i : Nat) k, ks[i]? = some k → ks'[i]? = some k) (h : sig.kindOf ks t = .ok k) :
    sig'.kindOf ks' t = .ok k := by
  induction t generalizing ks ks' k with
  | con c => exact h
  | var i => exact kindOf_var_iff.mpr (hks i k (kindOf_var_iff.mp h))
  | ref address => exact kindOf_ref_iff.mpr (hsig address k (kindOf_ref_iff.mp h))
  | app f a ihf iha =>
    obtain ⟨d, hf, ha⟩ := kindOf_app_iff.mp h
    exact kindOf_app_iff.mpr ⟨d, ihf hks hf, iha hks ha⟩
  | all k₀ body ih =>
    obtain ⟨hbody, rfl⟩ := kindOf_all_iff.mp h
    refine kindOf_all_iff.mpr ⟨ih ?_ hbody, rfl⟩
    intro i k hi
    cases i with
    | zero => exact hi
    | succ i => exact hks i k hi

/-- A closed type has its kind in every context. -/
theorem kindOf_append (outer : List Kind) (h : sig.kindOf ks t = .ok k) :
    sig.kindOf (ks ++ outer) t = .ok k := by
  refine kindOf_mono (fun _ _ => id) ?_ h
  intro i k hi
  rw [List.getElem?_append_left (List.getElem?_eq_some_iff.mp hi).1]
  exact hi

/-- Variables may be renamed to variables of the same kind. -/
theorem kindOf_rename {g : Nat → Nat} (hg : ∀ (i : Nat) k, ks[i]? = some k → ks'[g i]? = some k)
    (h : sig.kindOf ks t = .ok k) : sig.kindOf ks' (t.rename g) = .ok k := by
  induction t generalizing ks ks' k g with
  | con c => exact h
  | var i => exact kindOf_var_iff.mpr (hg i k (kindOf_var_iff.mp h))
  | ref address => exact kindOf_ref_iff.mpr (kindOf_ref_iff.mp h)
  | app f a ihf iha =>
    obtain ⟨d, hf, ha⟩ := kindOf_app_iff.mp h
    exact kindOf_app_iff.mpr ⟨d, ihf hg hf, iha hg ha⟩
  | all k₀ body ih =>
    obtain ⟨hbody, rfl⟩ := kindOf_all_iff.mp h
    refine kindOf_all_iff.mpr ⟨ih ?_ hbody, rfl⟩
    intro i k hi
    cases i with
    | zero => exact hi
    | succ i => exact hg i k hi

theorem kindOf_rename_raise (inner : List Kind) (h : sig.kindOf ks t = .ok k) :
    sig.kindOf (inner ++ ks) (t.rename (raise inner.length 0)) = .ok k := by
  refine kindOf_rename ?_ h
  intro i k hi
  rw [raise_zero_right, List.getElem?_append_right (Nat.le_add_left _ _), Nat.add_sub_cancel]
  exact hi

/-- Types may stand for variables of the same kinds. -/
theorem kindOf_substitute {σ : Nat → Ty}
    (hσ : ∀ (i : Nat) k, ks[i]? = some k → sig.kindOf ks' (σ i) = .ok k) (h : sig.kindOf ks t = .ok k) :
    sig.kindOf ks' (t.substitute σ) = .ok k := by
  induction t generalizing ks ks' k σ with
  | con c => exact h
  | var i => exact hσ i k (kindOf_var_iff.mp h)
  | ref address => exact kindOf_ref_iff.mpr (kindOf_ref_iff.mp h)
  | app f a ihf iha =>
    obtain ⟨d, hf, ha⟩ := kindOf_app_iff.mp h
    exact kindOf_app_iff.mpr ⟨d, ihf hσ hf, iha hσ ha⟩
  | all k₀ body ih =>
    obtain ⟨hbody, rfl⟩ := kindOf_all_iff.mp h
    refine kindOf_all_iff.mpr ⟨ih ?_ hbody, rfl⟩
    intro i k hi
    -- the quantified variable stays, and the types for the others move past it
    cases i with
    | zero => exact kindOf_var_iff.mpr hi
    | succ i => exact kindOf_rename_raise [k₀] (hσ i k hi)

/-! ## Shifting and instantiation

A type with a kind has no variable beyond those in scope, so its indices are bounded by their number and by
the quantifiers of the type itself. -/

theorem largestIndex_le (h : sig.kindOf ks t = .ok k) : t.largestIndex ≤ ks.length + t.nesting := by
  induction t generalizing ks k with
  | con | ref => exact Nat.zero_le _
  | var i =>
    obtain ⟨hi, -⟩ := List.getElem?_eq_some_iff.mp (kindOf_var_iff.mp h)
    simp only [Ty.largestIndex, Ty.nesting]
    omega
  | app f a ihf iha =>
    obtain ⟨d, hf, ha⟩ := kindOf_app_iff.mp h
    have := ihf hf
    have := iha ha
    simp only [Ty.largestIndex, Ty.nesting]
    omega
  | all k₀ body ih =>
    have := ih (kindOf_all_iff.mp h).1
    simp only [List.length_cons] at this
    simp only [Ty.largestIndex, Ty.nesting]
    omega

/-- A shift past new inner variables is a renaming, if the indices have room for them. -/
theorem shift_eq_rename (count cutoff : Nat) (h : sig.kindOf ks t = .ok k)
    (fits : ks.length + count + t.nesting ≤ maxIndex) :
    t.shift count cutoff = t.rename (raise count cutoff) := by
  have := largestIndex_le h
  exact Ty.shift_eq_rename count cutoff (by omega)

theorem instantiate_eq_substitute (hb : sig.kindOf (k' :: ks) b = .ok k) (ha : sig.kindOf ks a = .ok k')
    (fits : ks.length + a.nesting + (b.nesting + 1) ≤ maxIndex) :
    b.instantiate a = b.substitute (Ty.instantiation a) := by
  have hb := largestIndex_le hb
  have ha := largestIndex_le ha
  rw [List.length_cons] at hb
  exact Ty.instantiate_eq_substitute (by omega) (by omega)

/-- Instantiation keeps the kind of the body. -/
theorem kindOf_instantiate (hb : sig.kindOf (k' :: ks) b = .ok k) (ha : sig.kindOf ks a = .ok k')
    (fits : ks.length + a.nesting + (b.nesting + 1) ≤ maxIndex) :
    sig.kindOf ks (b.instantiate a) = .ok k := by
  rw [instantiate_eq_substitute hb ha fits]
  refine kindOf_substitute ?_ hb
  intro i k hi
  cases i with
  | zero =>
    cases hi
    exact ha
  | succ i => exact kindOf_var_iff.mpr hi

theorem nesting_instantiate_le (hb : sig.kindOf (k' :: ks) b = .ok k) (ha : sig.kindOf ks a = .ok k')
    (fits : ks.length + a.nesting + (b.nesting + 1) ≤ maxIndex) :
    (b.instantiate a).nesting ≤ b.nesting + a.nesting := by
  rw [instantiate_eq_substitute hb ha fits]
  refine Ty.nesting_substitute_le ?_ b
  intro i
  cases i with
  | zero => exact Nat.le_refl _
  | succ i => exact Nat.zero_le _

/-! ## Many arguments, many quantifiers -/

/-- A constructor applied to arguments of the kinds it asks for. -/
theorem kindOf_apply {arguments : List Ty} {kinds : List Kind}
    (hargs : List.Forall₂ (fun a k => sig.kindOf ks a = .ok k) arguments kinds)
    (h : sig.kindOf ks t = .ok (.ofArguments kinds k)) : sig.kindOf ks (t.apply arguments) = .ok k := by
  induction hargs generalizing t with
  | nil => exact h
  | cons ha _ ih =>
    rw [Ty.apply_cons]
    exact ih (kindOf_app_iff.mpr ⟨_, h, ha⟩)

/-- Quantification over kinds that are in scope in the body, the last one innermost. -/
theorem kindOf_quantify {kinds : List Kind} (h : sig.kindOf (kinds.reverse ++ ks) b = .ok .star) :
    sig.kindOf ks (.quantify kinds b) = .ok .star := by
  induction kinds generalizing ks with
  | nil => exact h
  | cons k kinds ih =>
    rw [List.reverse_cons, List.append_assoc] at h
    exact kindOf_all_iff.mpr ⟨ih h, rfl⟩

end AddressedF.Signature
