import AddressedF.Proofs.Kinding

/-!
# Instantiation Neither Breaks nor Mends a Kind

A quantified body and its instance at an argument of the quantified kind have the same kinds.  That kinds are
kept is `Signature.kindOf_rename` and `Signature.kindOf_substitute`.  That an ill-kinded body does not become
well-kinded is their converse, for which the new variables may have no kinds that the old ones did not have.

## Main Results

* `Signature.of_kindOf_rename`, `Signature.of_kindOf_substitute`: kinds of a type from kinds of its image
* `Signature.kindOf_instantiate_iff`: the kinds of an instance are those of the body

## Design Notes

An argument with a kind has no indices but those of the variables in scope and of its own quantifiers.  So no
shift leaves the range of indices as long as these and the quantifiers of the body have room in it, which holds
of whatever has room in memory.  The body need not have a kind, so its indices have to be in range themselves.
-/

namespace AddressedF.Signature

variable {sig : Signature} {ks ks' : List Kind} {k k' : Kind} {t a b : Ty}

/-- A renamed type has only the kinds of the type itself if the new variables have only those of the old. -/
theorem of_kindOf_rename {g : Nat → Nat} (hg : ∀ (i : Nat) k, ks'[g i]? = some k → ks[i]? = some k)
    (h : sig.kindOf ks' (t.rename g) = .ok k) : sig.kindOf ks t = .ok k := by
  induction t generalizing ks ks' k g with
  | con c => exact h
  | var i => exact kindOf_var_iff.mpr (hg i k (kindOf_var_iff.mp h))
  | ref address => exact kindOf_ref_iff.mpr (kindOf_ref_iff.mp h)
  | app f a ihf iha =>
    obtain ⟨d, hf, ha⟩ := kindOf_app_iff.mp h
    exact kindOf_app_iff.mpr ⟨d, ihf hg hf, iha hg ha⟩
  | all k₀ body ih =>
    obtain ⟨hbody, rfl⟩ := kindOf_all_iff.mp h
    refine kindOf_all_iff.mpr ⟨ih ?_ hbody, rfl⟩
    intro i k hi
    cases i with
    | zero => exact hi
    | succ i => exact hg i k hi

/-- A variable in front is not needed by a type that was moved past it. -/
theorem of_kindOf_rename_raise_one (h : sig.kindOf (k' :: ks) (t.rename (raise 1 0)) = .ok k) :
    sig.kindOf ks t = .ok k := by
  refine of_kindOf_rename ?_ h
  intro i k hi
  rwa [raise_zero_right, List.getElem?_cons_succ] at hi

/-- A type has the kinds of its image if each type that is put in has only those of its variable. -/
theorem of_kindOf_substitute {σ : Nat → Ty}
    (hσ : ∀ (i : Nat) k, sig.kindOf ks' (σ i) = .ok k → ks[i]? = some k)
    (h : sig.kindOf ks' (t.substitute σ) = .ok k) : sig.kindOf ks t = .ok k := by
  induction t generalizing ks ks' k σ with
  | con c => exact h
  | var i => exact kindOf_var_iff.mpr (hσ i k h)
  | ref address => exact kindOf_ref_iff.mpr (kindOf_ref_iff.mp h)
  | app f a ihf iha =>
    obtain ⟨d, hf, ha⟩ := kindOf_app_iff.mp h
    exact kindOf_app_iff.mpr ⟨d, ihf hσ hf, iha hσ ha⟩
  | all k₀ body ih =>
    obtain ⟨hbody, rfl⟩ := kindOf_all_iff.mp h
    refine kindOf_all_iff.mpr ⟨ih ?_ hbody, rfl⟩
    intro i k hi
    -- what is put in has moved past the quantified variable and does not mention it
    cases i with
    | zero =>
      rw [Ty.liftSubstitution, kindOf_var_iff] at hi
      exact hi
    | succ i => exact hσ i k (of_kindOf_rename_raise_one hi)

/-- What is put in for a variable has exactly the kind of the variable. -/
theorem kindOf_instantiation_iff (ha : sig.kindOf ks a = .ok k) (i : Nat) :
    sig.kindOf ks (Ty.instantiation a i) = .ok k' ↔ (k :: ks)[i]? = some k' := by
  cases i with
  | zero =>
    rw [Ty.instantiation, ha, List.getElem?_cons_zero, Except.ok.injEq, Option.some.injEq]
  | succ i => exact kindOf_var_iff

/-- The instance of a body at an argument of the quantified kind has the kinds of the body and no others. -/
theorem kindOf_instantiate_iff (hbody : b.largestIndex ≤ maxIndex)
    (fits : ks.length + a.nesting + (b.nesting + 1) ≤ maxIndex) (ha : sig.kindOf ks a = .ok k) :
    sig.kindOf ks (b.instantiate a) = .ok k' ↔ sig.kindOf (k :: ks) b = .ok k' := by
  have hargument := largestIndex_le ha
  rw [Ty.instantiate_eq_substitute hbody (by omega)]
  constructor
  · exact of_kindOf_substitute fun i _ => (kindOf_instantiation_iff ha i).mp
  · exact kindOf_substitute fun i _ => (kindOf_instantiation_iff ha i).mpr

/-- The argument is a variable that keeps its binder under the quantifier of the body, where it stands for a
function and for what is applied. -/
theorem kindOf_instantiate_iff_under_quantifier :
    let ks : List Kind := [.star, .arrow .star .star]
    let b := Ty.all .star (.app (.var 1) (.app (.var 3) (.arrow (.var 0) (.var 2))))
    let image := Ty.all .star (.app (.var 2) (.app (.var 2) (.arrow (.var 0) (.var 1))))
    (b.largestIndex ≤ maxIndex ∧ ks.length + (Ty.var 1).nesting + (b.nesting + 1) ≤ maxIndex ∧
      Signature.empty.kindOf ks (.var 1) = .ok (.arrow .star .star)) ∧
    b.instantiate (.var 1) = image ∧ Signature.empty.kindOf ks image = .ok .star := by
  intro ks b image
  have hbody : b.largestIndex ≤ maxIndex := by decide
  have fits : ks.length + (Ty.var 1).nesting + (b.nesting + 1) ≤ maxIndex := by decide
  have ha : Signature.empty.kindOf ks (.var 1) = .ok (.arrow .star .star) := rfl
  have himage : b.instantiate (.var 1) = image := by decide
  refine ⟨⟨hbody, fits, ha⟩, himage, ?_⟩
  rw [← himage]
  exact (kindOf_instantiate_iff hbody fits ha).mpr rfl

end AddressedF.Signature
