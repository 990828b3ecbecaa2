import AddressedF.Proofs.Substitution

/-!
# Instantiation Avoids Capture

An instantiation is made in three passes: the argument makes room for the quantified variable, it is put in
while it moves past every binder it comes to, and what has become of the body moves back.  What the three
come to is said here by one pass that counts the binders it goes under and moves the argument once, at the
place where it is put.  Nothing is asked of the kinds of the types, and they may have free variables.

## Main Definitions

* `Ty.replace`: the argument in place of the quantified variable, in one pass

## Main Results

* `Ty.instantiate_avoids_capture`: instantiation is that pass, and none of its additions stops
* `Ty.instantiate_comm`: of two quantified variables either may be instantiated first
-/

namespace AddressedF.Ty

/-- Puts `argument` in place of variable `depth`, its own variables moved past the `depth` binders in between.
The variables of those binders stay, and the variables further out move inward. -/
def replace : Ty → (depth : Nat) → (argument : Ty) → Ty
  | con c, _, _ => con c
  | var i, depth, argument =>
    if i < depth then var i
    else if i = depth then argument.rename (raise depth 0)
    else var (i - 1)
  | app f a, depth, argument => app (f.replace depth argument) (a.replace depth argument)
  | all k body, depth, argument => all k (body.replace (depth + 1) argument)
  | ref a, _, _ => ref a

theorem substitute_instantiationAt (depth : Nat) (argument t : Ty) :
    t.substitute (instantiationAt depth argument) = t.replace depth argument := by
  induction t generalizing depth with
  | con | var | ref => rfl
  | app _ _ ihf iha => rw [substitute, replace, ihf, iha]
  | all _ _ ih => rw [substitute, replace, liftSubstitution_instantiationAt, ih]

/-- Instantiation is replacement in one pass, as long as the indices of the argument leave room for it to move
past the quantifiers of the body.  No addition on the way stops at an end of the range. -/
theorem instantiate_avoids_capture {body argument : Ty} (hbody : ∀ i ∈ body.indices, i ≤ maxIndex)
    (fits : ∀ i ∈ argument.indices, i + body.nesting + 1 ≤ maxIndex) :
    body.instantiate argument = body.replace 0 argument ∧ body.InstantiateExact argument := by
  have hexact := instantiateExact_of_fits hbody fits
  refine ⟨?_, hexact⟩
  rw [hexact.eq_substitute, ← instantiationAt_zero, substitute_instantiationAt]

/-- A variable with just so much room moves past a quantifier, and is not captured by it. -/
theorem instantiate_avoids_capture_at_bound :
    let body := Ty.all .star (.app (.arrow (.var 0) (.var 1)) (.var maxIndex))
    let argument := Ty.var (maxIndex - 2)
    let image := Ty.all .star (.app (.arrow (.var 0) (.var (maxIndex - 1))) (.var (maxIndex - 1)))
    ((∀ i ∈ body.indices, i ≤ maxIndex) ∧ ∀ i ∈ argument.indices, i + body.nesting + 1 ≤ maxIndex) ∧
    body.instantiate argument = image ∧ body.InstantiateExact argument := by
  intro body argument image
  have hbody : ∀ i ∈ body.indices, i ≤ maxIndex := by decide
  have fits : ∀ i ∈ argument.indices, i + body.nesting + 1 ≤ maxIndex := by decide
  have himage : body.replace 0 argument = image := by decide
  obtain ⟨heq, hexact⟩ := instantiate_avoids_capture hbody fits
  exact ⟨⟨hbody, fits⟩, heq.trans himage, hexact⟩

/-! ## The order of instantiations -/

/-- The outer one of two variables, the inner one, and the variables around both: what stands for each of them
once both are instantiated is the same in either order. -/
theorem instantiation_comm (argument outer : Ty) :
    (fun i => (liftSubstitution (instantiation outer) i).substitute
        (instantiation (argument.substitute (instantiation outer)))) =
      fun i => (instantiation argument i).substitute (instantiation outer) := by
  funext i
  match i with
  | 0 => rfl
  | 1 =>
    -- the outer type was moved past the inner variable, which it does not mention
    have hback (a : Ty) : instantiation a ∘ raise 1 0 = var := by
      funext j
      rw [Function.comp_apply, raise_zero_right, instantiation]
    rw [liftSubstitution, substitute_rename, hback, substitute_var]
    rfl
  | i + 2 =>
    rw [liftSubstitution, instantiation, rename, raise_zero_right]
    rfl

/-- Of two quantified variables, with types for both, either may be instantiated first.  If it is the outer
one, then the type for the inner one is instantiated with it.  No instantiation may stop at an end of the
range. -/
theorem instantiate_comm {k : Kind} {body body' argument outer : Ty}
    (hbody' : (all k body).instantiate outer = all k body')
    (houter : (all k body).InstantiateExact outer) (hargument : argument.InstantiateExact outer)
    (hinner' : body'.InstantiateExact (argument.instantiate outer))
    (hinner : body.InstantiateExact argument)
    (houter' : (body.instantiate argument).InstantiateExact outer) :
    body'.instantiate (argument.instantiate outer) = (body.instantiate argument).instantiate outer := by
  rw [houter.eq_substitute, substitute] at hbody'
  obtain ⟨-, rfl⟩ := all.inj hbody'
  calc (body.substitute (liftSubstitution (instantiation outer))).instantiate (argument.instantiate outer)
      = (body.substitute (liftSubstitution (instantiation outer))).substitute
          (instantiation (argument.substitute (instantiation outer))) := by
        rw [hinner'.eq_substitute, hargument.eq_substitute]
    _ = (body.substitute (instantiation argument)).substitute (instantiation outer) := by
        rw [substitute_substitute, substitute_substitute, instantiation_comm]
    _ = (body.instantiate argument).instantiate outer := by
        rw [houter'.eq_substitute, hinner.eq_substitute]

/-- The type for the inner variable is a function from the outer one, and the type for that has a quantifier
and a free variable. -/
theorem instantiate_comm_under_quantifier :
    let k := Kind.arrow .star .star
    let body := Ty.all .star (.app (.var 1) (.arrow (.var 0) (.arrow (.var 2) (.var 3))))
    let argument := Ty.all .star (.arrow (.var 1) (.var 2))
    let outer := Ty.all .star (.arrow (.var 0) (.var 1))
    let body' := Ty.all .star (.app (.var 1)
      (.arrow (.var 0) (.arrow (.all .star (.arrow (.var 0) (.var 3))) (.var 2))))
    ((Ty.all k body).instantiate outer = .all k body' ∧ (Ty.all k body).InstantiateExact outer ∧
      argument.InstantiateExact outer ∧ body'.InstantiateExact (argument.instantiate outer) ∧
      body.InstantiateExact argument ∧ (body.instantiate argument).InstantiateExact outer) ∧
    body'.instantiate (argument.instantiate outer) = (body.instantiate argument).instantiate outer := by
  intro k body argument outer body'
  have hbody' : (Ty.all k body).instantiate outer = .all k body' := by decide
  have houter : (Ty.all k body).InstantiateExact outer :=
    instantiateExact_of_fits (by decide) (by decide)
  have hargument : argument.InstantiateExact outer := instantiateExact_of_fits (by decide) (by decide)
  have hinner' : body'.InstantiateExact (argument.instantiate outer) :=
    instantiateExact_of_fits (by decide) (by decide)
  have hinner : body.InstantiateExact argument := instantiateExact_of_fits (by decide) (by decide)
  have houter' : (body.instantiate argument).InstantiateExact outer :=
    instantiateExact_of_fits (by decide) (by decide)
  exact ⟨⟨hbody', houter, hargument, hinner', hinner, houter'⟩,
    instantiate_comm hbody' houter hargument hinner' hinner houter'⟩

end AddressedF.Ty
