import AddressedF.Ty.Substitution

/-!
# Parallel Substitution

`Ty.shift` and `Ty.subst` work on one variable at a time, and a shift stops at the ends of the range of
indices.  Statements about kinds and meanings go through an induction only if all variables are replaced at
once and nothing stops anywhere.  This module has that second form, `Ty.rename` and `Ty.substitute`, and
shows that `Ty.shift` and `Ty.instantiate` are instances of it as long as no index leaves the range.

## Main Definitions

* `Ty.rename`, `Ty.substitute`: other variables, or types, in place of all variables
* `raise`: the renaming that `Ty.shift` performs
* `Ty.instantiation`: the substitution that `Ty.instantiate` performs
* `Ty.ShiftExact`, `Ty.SubstExact`, `Ty.InstantiateExact`: nothing stops at an end of the range
* `Ty.indices`, `Ty.largestIndex`, `Ty.nesting`: what has to be known to see that nothing does

## Main Results

* `Ty.substitute_substitute`: one substitution after another is a substitution
* `Ty.InstantiateExact.eq_substitute`: instantiation is substitution if nothing stops
* `Ty.instantiateExact_of_fits`: nothing stops if there is room for the quantifiers of the body

## Design Notes

Whether something stops is said of the passes as they are made, not of their result: a shift that stops where
no variable is put in would not show there.
-/

namespace AddressedF

/-- A renaming as it acts under one more binder, whose variable it leaves alone. -/
def underBinder (f : Nat → Nat) : Nat → Nat
  | 0 => 0
  | i + 1 => f i + 1

/-- Makes room for `count` variables in front of variable `cutoff`. -/
def raise (count cutoff : Nat) (i : Nat) : Nat :=
  if cutoff ≤ i then i + count else i

@[simp] theorem underBinder_zero (f : Nat → Nat) : underBinder f 0 = 0 := rfl

@[simp] theorem underBinder_succ (f : Nat → Nat) (i : Nat) : underBinder f (i + 1) = f i + 1 := rfl

theorem raise_of_le {count cutoff i : Nat} (h : cutoff ≤ i) : raise count cutoff i = i + count :=
  if_pos h

theorem raise_of_lt {count cutoff i : Nat} (h : i < cutoff) : raise count cutoff i = i :=
  if_neg (by omega)

theorem raise_zero_right (count i : Nat) : raise count 0 i = i + count :=
  raise_of_le (Nat.zero_le i)

theorem raise_le (count cutoff i : Nat) : raise count cutoff i ≤ i + count := by
  unfold raise
  split <;> omega

theorem underBinder_raise (count cutoff : Nat) :
    underBinder (raise count cutoff) = raise count (cutoff + 1) := by
  funext i
  cases i with
  | zero => rw [underBinder_zero, raise_of_lt (Nat.succ_pos cutoff)]
  | succ i =>
    rw [underBinder_succ]
    unfold raise
    split <;> split <;> omega

theorem underBinder_comp (f g : Nat → Nat) :
    underBinder g ∘ underBinder f = underBinder (g ∘ f) := by
  funext i
  cases i <;> rfl

theorem underBinder_comp_raise_one (f : Nat → Nat) : underBinder f ∘ raise 1 0 = raise 1 0 ∘ f := by
  funext i
  simp only [Function.comp_apply, raise_zero_right, underBinder_succ]

namespace Ty

/-- Puts variable `f i` in place of variable `i`. -/
@[simp]
def rename (f : Nat → Nat) : Ty → Ty
  | con c => con c
  | var i => var (f i)
  | app g a => app (g.rename f) (a.rename f)
  | all k body => all k (body.rename (underBinder f))
  | ref a => ref a

/-- A substitution as it acts under one more binder, whose variable it leaves alone. -/
def liftSubstitution (σ : Nat → Ty) : Nat → Ty
  | 0 => var 0
  | i + 1 => (σ i).rename (raise 1 0)

/-- Puts the type `σ i` in place of variable `i`. -/
@[simp]
def substitute (σ : Nat → Ty) : Ty → Ty
  | con c => con c
  | var i => σ i
  | app g a => app (g.substitute σ) (a.substitute σ)
  | all k body => all k (body.substitute (liftSubstitution σ))
  | ref a => ref a

/-- The variables of a type, free and bound ones. -/
@[simp]
def indices : Ty → List Nat
  | con _ | ref _ => []
  | var i => [i]
  | app f a => f.indices ++ a.indices
  | all _ body => body.indices

/-- The greatest index of a variable that occurs, or zero. -/
@[simp]
def largestIndex : Ty → Nat
  | con _ | ref _ => 0
  | var i => i
  | app f a => max f.largestIndex a.largestIndex
  | all _ body => body.largestIndex

/-- How many quantifiers stand inside each other. -/
@[simp]
def nesting : Ty → Nat
  | con _ | var _ | ref _ => 0
  | app f a => max f.nesting a.nesting
  | all _ body => body.nesting + 1

theorem rename_rename (f g : Nat → Nat) (t : Ty) : (t.rename f).rename g = t.rename (g ∘ f) := by
  induction t generalizing f g with
  | con | var | ref => rfl
  | app _ _ ihf iha => simp [ihf, iha]
  | all _ _ ih => simp [ih, underBinder_comp]

theorem rename_raise_raise (m n : Nat) (t : Ty) :
    (t.rename (raise m 0)).rename (raise n 0) = t.rename (raise (m + n) 0) := by
  rw [rename_rename]
  congr 1
  funext i
  simp only [Function.comp_apply, raise_zero_right]
  omega

theorem rename_raise_zero (cutoff : Nat) (t : Ty) : t.rename (raise 0 cutoff) = t := by
  induction t generalizing cutoff with
  | con | ref => rfl
  | var i =>
    have h : raise 0 cutoff i = i := by unfold raise; split <;> rfl
    rw [rename, h]
  | app _ _ ihf iha => rw [rename, ihf, iha]
  | all _ _ ih => rw [rename, underBinder_raise, ih]

theorem nesting_rename (f : Nat → Nat) (t : Ty) : (t.rename f).nesting = t.nesting := by
  induction t generalizing f with
  | con | var | ref => rfl
  | app _ _ ihf iha => simp [ihf, iha]
  | all _ _ ih => simp [ih]

/-- A substitution puts types of at most `m` nested quantifiers at the innermost place. -/
theorem nesting_substitute_le {σ : Nat → Ty} {m : Nat} (h : ∀ i, (σ i).nesting ≤ m) (t : Ty) :
    (t.substitute σ).nesting ≤ t.nesting + m := by
  induction t generalizing σ with
  | con | ref => exact Nat.zero_le _
  | var i => exact Nat.le_trans (h i) (Nat.le_add_left _ _)
  | app _ _ ihf iha =>
    have hf := ihf h
    have ha := iha h
    simp only [substitute, nesting]
    omega
  | all _ _ ih =>
    -- renaming does not nest any quantifiers
    have hlift : ∀ i, (liftSubstitution σ i).nesting ≤ m := by
      intro i
      cases i with
      | zero => exact Nat.zero_le _
      | succ i =>
        rw [liftSubstitution, nesting_rename]
        exact h i
    have hbody := ih hlift
    simp only [substitute, nesting]
    omega

/-! ## One substitution after another -/

theorem liftSubstitution_var : liftSubstitution var = var := by
  funext i
  cases i with
  | zero => rfl
  | succ i => rw [liftSubstitution, rename, raise_zero_right]

theorem substitute_var (t : Ty) : t.substitute var = t := by
  induction t with
  | con | var | ref => rfl
  | app _ _ ihf iha => rw [substitute, ihf, iha]
  | all _ _ ih => rw [substitute, liftSubstitution_var, ih]

theorem liftSubstitution_comp_raise_one (σ : Nat → Ty) :
    liftSubstitution σ ∘ raise 1 0 = fun i => (σ i).rename (raise 1 0) := by
  funext i
  rw [Function.comp_apply, raise_zero_right, liftSubstitution]

theorem liftSubstitution_comp_underBinder (σ : Nat → Ty) (f : Nat → Nat) :
    liftSubstitution σ ∘ underBinder f = liftSubstitution (σ ∘ f) := by
  funext i
  cases i <;> rfl

theorem substitute_rename (f : Nat → Nat) (σ : Nat → Ty) (t : Ty) :
    (t.rename f).substitute σ = t.substitute (σ ∘ f) := by
  induction t generalizing f σ with
  | con | var | ref => rfl
  | app _ _ ihf iha => simp [ihf, iha]
  | all _ _ ih => simp [ih, liftSubstitution_comp_underBinder]

theorem liftSubstitution_rename (σ : Nat → Ty) (f : Nat → Nat) :
    (fun i => (liftSubstitution σ i).rename (underBinder f)) =
      liftSubstitution fun i => (σ i).rename f := by
  funext i
  cases i with
  | zero => rfl
  | succ i => simp only [liftSubstitution, rename_rename, underBinder_comp_raise_one]

theorem rename_substitute (σ : Nat → Ty) (f : Nat → Nat) (t : Ty) :
    (t.substitute σ).rename f = t.substitute fun i => (σ i).rename f := by
  induction t generalizing σ f with
  | con | var | ref => rfl
  | app _ _ ihf iha => simp [ihf, iha]
  | all _ _ ih => simp [ih, liftSubstitution_rename]

theorem liftSubstitution_substitute (σ τ : Nat → Ty) :
    (fun i => (liftSubstitution σ i).substitute (liftSubstitution τ)) =
      liftSubstitution fun i => (σ i).substitute τ := by
  funext i
  cases i with
  | zero => rfl
  | succ i =>
    -- what is put in has moved past the bound variable, which the second substitution leaves alone
    simp only [liftSubstitution, substitute_rename, rename_substitute, liftSubstitution_comp_raise_one]

/-- One substitution after another is one substitution. -/
theorem substitute_substitute (σ τ : Nat → Ty) (t : Ty) :
    (t.substitute σ).substitute τ = t.substitute fun i => (σ i).substitute τ := by
  induction t generalizing σ τ with
  | con | var | ref => rfl
  | app _ _ ihf iha => simp [ihf, iha]
  | all _ _ ih => simp [ih, liftSubstitution_substitute]

/-! ## Shifts that stay in range -/

/-- No addition of the shift stops at an end of the range. -/
def ShiftExact (delta : Int) (cutoff : Nat) : Ty → Prop
  | con _ | ref _ => True
  | var i => cutoff ≤ i → (shiftIndex delta i : Int) = i + delta
  | app f a => f.ShiftExact delta cutoff ∧ a.ShiftExact delta cutoff
  | all _ body => body.ShiftExact delta (cutoff + 1)

/-- A shift outward that stays in range makes room for the new variables. -/
theorem ShiftExact.eq_rename {count cutoff : Nat} {t : Ty} (h : t.ShiftExact count cutoff) :
    t.shift count cutoff = t.rename (raise count cutoff) := by
  induction t generalizing cutoff with
  | con | ref => rfl
  | var i =>
    rw [shift, rename]
    rcases Nat.lt_or_ge i cutoff with hi | hi
    · rw [if_neg (by omega), raise_of_lt hi]
    · have hexact := h hi
      rw [if_pos hi, raise_of_le hi]
      congr 1
      omega
  | app f a ihf iha => rw [shift, rename, ihf h.1, iha h.2]
  | all k body ih => rw [shift, rename, underBinder_raise, ih h]

theorem ShiftExact.one_eq_rename {cutoff : Nat} {t : Ty} (h : t.ShiftExact 1 cutoff) :
    t.shift 1 cutoff = t.rename (raise 1 cutoff) :=
  @ShiftExact.eq_rename 1 cutoff t h

/-- A shift inward by one that stays in range takes away the last variable that room was made for. -/
theorem ShiftExact.neg_one_rename_raise {count cutoff : Nat} {t : Ty}
    (h : (t.rename (raise (count + 1) cutoff)).ShiftExact (-1) (cutoff + count)) :
    (t.rename (raise (count + 1) cutoff)).shift (-1) (cutoff + count) =
      t.rename (raise count cutoff) := by
  induction t generalizing cutoff with
  | con | ref => rfl
  | var i =>
    rw [rename] at h ⊢
    rw [rename]
    rcases Nat.lt_or_ge i cutoff with hi | hi
    · rw [raise_of_lt hi, raise_of_lt hi, shift, if_neg (by omega)]
    · rw [raise_of_le hi] at h ⊢
      have hexact := h (by omega)
      rw [raise_of_le hi, shift, if_pos (by omega)]
      congr 1
      omega
  | app f a ihf iha =>
    simp only [rename, shift]
    rw [ihf h.1, iha h.2]
  | all k body ih =>
    rw [rename, underBinder_raise, ShiftExact, Nat.add_right_comm] at h
    rw [rename, shift, underBinder_raise, Nat.add_right_comm, ih h, rename, underBinder_raise]

theorem largestIndex_le_iff {n : Nat} {t : Ty} : t.largestIndex ≤ n ↔ ∀ i ∈ t.indices, i ≤ n := by
  induction t with
  | con | ref => simp
  | var i => simp
  | app f a ihf iha =>
    simp only [largestIndex, indices, List.mem_append, Nat.max_le, ihf, iha]
    constructor
    · rintro ⟨hf, ha⟩ i (hi | hi)
      · exact hf i hi
      · exact ha i hi
    · intro h
      exact ⟨fun i hi => h i (.inl hi), fun i hi => h i (.inr hi)⟩
  | all k body ih => exact ih

theorem exists_of_mem_indices_rename {count cutoff j : Nat} {t : Ty}
    (h : j ∈ (t.rename (raise count cutoff)).indices) : ∃ i ∈ t.indices, j ≤ i + count := by
  induction t generalizing cutoff with
  | con | ref => cases h
  | var i =>
    obtain rfl := List.mem_singleton.mp h
    exact ⟨i, List.mem_singleton_self i, raise_le count cutoff i⟩
  | app f a ihf iha =>
    rcases List.mem_append.mp h with h | h
    · obtain ⟨i, hi, hle⟩ := ihf h
      exact ⟨i, List.mem_append_left _ hi, hle⟩
    · obtain ⟨i, hi, hle⟩ := iha h
      exact ⟨i, List.mem_append_right _ hi, hle⟩
  | all k body ih =>
    rw [rename, underBinder_raise] at h
    exact ih h

theorem shiftExact_of_fits (count cutoff : Nat) {t : Ty}
    (fits : ∀ i ∈ t.indices, i + count ≤ maxIndex) : t.ShiftExact count cutoff := by
  induction t generalizing cutoff with
  | con | ref => trivial
  | var i =>
    intro _
    rw [shiftIndex_of_le (fits i (List.mem_singleton_self i))]
    omega
  | app f a ihf iha =>
    exact ⟨ihf cutoff fun i hi => fits i (List.mem_append_left _ hi),
      iha cutoff fun i hi => fits i (List.mem_append_right _ hi)⟩
  | all k body ih => exact ih (cutoff + 1) fits

/-- What room was made for may be taken away again. -/
theorem shiftExact_neg_one_rename_raise {count : Nat} (cutoff : Nat) {t : Ty}
    (fits : ∀ i ∈ t.indices, i + count ≤ maxIndex) :
    (t.rename (raise (count + 1) cutoff)).ShiftExact (-1) (cutoff + count) := by
  induction t generalizing cutoff with
  | con | ref => trivial
  | var i =>
    have hle := fits i (List.mem_singleton_self i)
    intro hcutoff
    unfold shiftIndex raise at *
    split at hcutoff <;> split <;> omega
  | app f a ihf iha =>
    exact ⟨ihf cutoff fun i hi => fits i (List.mem_append_left _ hi),
      iha cutoff fun i hi => fits i (List.mem_append_right _ hi)⟩
  | all k body ih =>
    rw [rename, underBinder_raise, ShiftExact, Nat.add_right_comm]
    exact ih (cutoff + 1) fits

theorem shift_eq_rename (count cutoff : Nat) {t : Ty} (fits : t.largestIndex + count ≤ maxIndex) :
    t.shift count cutoff = t.rename (raise count cutoff) := by
  refine (shiftExact_of_fits count cutoff ?_).eq_rename
  intro i hi
  have := largestIndex_le_iff.mp (Nat.le_refl t.largestIndex) i hi
  omega

/-! ## Instantiation is substitution -/

/-- Puts `argument` in place of variable zero and moves the other variables inward. -/
def instantiation (argument : Ty) : Nat → Ty
  | 0 => argument
  | i + 1 => var i

/-- The instantiation as it acts under `depth` binders. -/
def instantiationAt (depth : Nat) (argument : Ty) (i : Nat) : Ty :=
  if i < depth then var i
  else if i = depth then argument.rename (raise depth 0)
  else var (i - 1)

theorem instantiationAt_zero (argument : Ty) : instantiationAt 0 argument = instantiation argument := by
  funext i
  cases i with
  | zero => exact rename_raise_zero 0 argument
  | succ i => rfl

theorem liftSubstitution_instantiationAt (depth : Nat) (argument : Ty) :
    liftSubstitution (instantiationAt depth argument) = instantiationAt (depth + 1) argument := by
  funext i
  cases i with
  | zero => rw [instantiationAt, if_pos (Nat.succ_pos depth)]; rfl
  | succ i =>
    simp only [liftSubstitution, instantiationAt]
    rcases Nat.lt_trichotomy i depth with h | h | h
    · rw [if_pos h, if_pos (by omega)]
      rfl
    · rw [if_neg (by omega), if_pos h, if_neg (by omega), if_pos (by omega), rename_raise_raise]
    · rw [if_neg (by omega), if_neg (by omega), if_neg (by omega), if_neg (by omega), rename,
        raise_zero_right, Nat.sub_add_cancel (by omega), Nat.add_sub_cancel]

/-- No shift of the type that is put in stops at an end of the range. -/
def SubstExact : Ty → Nat → Ty → Prop
  | con _, _, _ | var _, _, _ | ref _, _, _ => True
  | app f a, index, s => f.SubstExact index s ∧ a.SubstExact index s
  | all _ body, index, s => s.ShiftExact 1 0 ∧ body.SubstExact (index + 1) (s.shift 1 0)

/-- No addition of the three passes of an instantiation stops at an end of the range. -/
structure InstantiateExact (body argument : Ty) : Prop where
  outward : argument.ShiftExact 1 0
  put : body.SubstExact 0 (argument.shift 1 0)
  inward : (body.subst 0 (argument.shift 1 0)).ShiftExact (-1) 0

/-- The last two passes of an instantiation, under `depth` binders. -/
theorem shift_subst_eq_substitute {body argument : Ty} (depth : Nat)
    (hput : body.SubstExact depth (argument.rename (raise (depth + 1) 0)))
    (hinward : (body.subst depth (argument.rename (raise (depth + 1) 0))).ShiftExact (-1) depth) :
    (body.subst depth (argument.rename (raise (depth + 1) 0))).shift (-1) depth =
      body.substitute (instantiationAt depth argument) := by
  induction body generalizing depth with
  | con | ref => rfl
  | var i =>
    rw [subst] at hinward ⊢
    rw [substitute, instantiationAt]
    -- bound inside of the body, the variable that is replaced, or free in the whole type
    rcases Nat.lt_trichotomy i depth with h | h | h
    · rw [if_neg (by omega), if_pos h, shift, if_neg (by omega)]
    · rw [if_pos h] at hinward ⊢
      have hback : (argument.rename (raise (depth + 1) 0)).ShiftExact (-1) (0 + depth) := by
        rwa [Nat.zero_add]
      have heq := hback.neg_one_rename_raise
      rw [Nat.zero_add] at heq
      rw [if_neg (by omega), if_pos h, heq]
    · rw [if_neg (by omega)] at hinward ⊢
      have hexact := hinward (by omega)
      rw [if_neg (by omega), if_neg (by omega), shift, if_pos (by omega)]
      congr 1
      omega
  | app f a ihf iha =>
    simp only [subst, shift, substitute]
    rw [ihf depth hput.1 hinward.1, iha depth hput.2 hinward.2]
  | all k body ih =>
    -- the argument has moved past `depth + 1` binders and moves past one more
    obtain ⟨hshift, hput⟩ := hput
    have hraise : (argument.rename (raise (depth + 1) 0)).shift 1 0 =
        argument.rename (raise (depth + 1 + 1) 0) := by
      rw [hshift.one_eq_rename, rename_raise_raise]
    rw [subst, ShiftExact, hraise] at hinward
    rw [hraise] at hput
    rw [subst, shift, substitute, liftSubstitution_instantiationAt, hraise, ih (depth + 1) hput hinward]

/-- Instantiation is one substitution as long as nothing stops at an end of the range. -/
theorem InstantiateExact.eq_substitute {body argument : Ty} (h : body.InstantiateExact argument) :
    body.instantiate argument = body.substitute (instantiation argument) := by
  obtain ⟨houtward, hput, hinward⟩ := h
  rw [houtward.one_eq_rename] at hput hinward
  rw [instantiate, houtward.one_eq_rename, ← instantiationAt_zero]
  exact shift_subst_eq_substitute 0 hput hinward

theorem fits_of_le {indices : List Nat} {m n : Nat} (fits : ∀ i ∈ indices, i + m ≤ maxIndex) (hle : n ≤ m) :
    ∀ i ∈ indices, i + n ≤ maxIndex :=
  fun i hi => Nat.le_trans (Nat.add_le_add_left hle i) (fits i hi)

/-- Under `depth` binders there is room for the argument to move past the binders of the body. -/
theorem exact_of_fits {body argument : Ty} (depth : Nat) (hbody : ∀ i ∈ body.indices, i ≤ maxIndex)
    (fits : ∀ i ∈ argument.indices, i + (depth + body.nesting + 1) ≤ maxIndex) :
    body.SubstExact depth (argument.rename (raise (depth + 1) 0)) ∧
      (body.subst depth (argument.rename (raise (depth + 1) 0))).ShiftExact (-1) depth := by
  induction body generalizing depth with
  | con | ref => exact ⟨trivial, trivial⟩
  | var i =>
    refine ⟨trivial, ?_⟩
    rw [subst]
    split
    · have hback := shiftExact_neg_one_rename_raise 0 (fits_of_le fits (by omega : depth ≤ _))
      rwa [Nat.zero_add] at hback
    · -- a variable at the cutoff is the one that is replaced, so this one can move inward
      intro hcutoff
      rw [shiftIndex_neg_one (hbody i (List.mem_singleton_self i))]
      omega
  | app f a ihf iha =>
    simp only [nesting] at fits
    obtain ⟨hput, hinward⟩ := ihf depth (fun i hi => hbody i (List.mem_append_left _ hi))
      (fits_of_le fits (by omega))
    obtain ⟨hput', hinward'⟩ := iha depth (fun i hi => hbody i (List.mem_append_right _ hi))
      (fits_of_le fits (by omega))
    exact ⟨⟨hput, hput'⟩, hinward, hinward'⟩
  | all k body ih =>
    simp only [nesting] at fits
    have hshift : (argument.rename (raise (depth + 1) 0)).ShiftExact 1 0 := by
      refine shiftExact_of_fits 1 0 ?_
      intro j hj
      obtain ⟨i, hi, hle⟩ := exists_of_mem_indices_rename hj
      have := fits i hi
      omega
    have hraise := hshift.one_eq_rename
    rw [rename_raise_raise] at hraise
    obtain ⟨hput, hinward⟩ := ih (depth + 1) hbody (fits_of_le fits (by omega))
    rw [← hraise] at hput hinward
    exact ⟨⟨hshift, hput⟩, hinward⟩

/-- Nothing stops if the indices of the argument leave room for the quantifiers of the body. -/
theorem instantiateExact_of_fits {body argument : Ty} (hbody : ∀ i ∈ body.indices, i ≤ maxIndex)
    (fits : ∀ i ∈ argument.indices, i + (body.nesting + 1) ≤ maxIndex) :
    body.InstantiateExact argument := by
  have houtward : argument.ShiftExact 1 0 := shiftExact_of_fits 1 0 (fits_of_le fits (by omega))
  obtain ⟨hput, hinward⟩ := exact_of_fits 0 hbody (fits_of_le fits (by omega))
  rw [← houtward.one_eq_rename] at hput hinward
  exact ⟨houtward, hput, hinward⟩

theorem instantiate_eq_substitute {body argument : Ty} (hbody : body.largestIndex ≤ maxIndex)
    (fits : argument.largestIndex + (body.nesting + 1) ≤ maxIndex) :
    body.instantiate argument = body.substitute (instantiation argument) := by
  refine (instantiateExact_of_fits (largestIndex_le_iff.mp hbody) ?_).eq_substitute
  intro i hi
  have := largestIndex_le_iff.mp (Nat.le_refl argument.largestIndex) i hi
  omega

end Ty

end AddressedF
