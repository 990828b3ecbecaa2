import AddressedF.Proofs.Evaluation
import AddressedF.Proofs.Fuel
import AddressedF.Proofs.Numerals

/-!
# Safety of Evaluation

A well-typed term, applied to arguments of the types that it takes, never meets a reference to an unknown
term and never stops before it has computed a value of its type.  Types are erased before evaluation, so
nothing but typing keeps the machine from getting stuck.

## Main Definitions

* `Signature.IsArgument`, `Signature.Accepts`: the arguments that a term of a type may be applied to
* `Machine.Used`: a machine that may have made transitions before
* `State.Finished`: a state in which a value of a type has been computed

## Main Results

* `Machine.Used.evaluation_safe`: evaluation of well-typed terms does not fail and does not get stuck
-/

namespace AddressedF

/-- A machine over `sig` that may have made transitions before, out of any states. -/
inductive Machine.Used (sig : Signature) : Machine → Prop where
  | new : Used sig (.new sig)
  | step {m : Machine} (s : State) : Used sig m → Used sig (m.step s).2

/-- Whether an erased term is a value. -/
def Erased.IsValue : Erased → Prop
  | .byte _ | .succ | .lam _ => True
  | _ => False

/-- Nothing is left to do, and the term is a value as the type says: a byte if it is the type of bytes, and
a function if it is a function type. -/
structure State.Finished (T : Ty) (s : State) : Prop where
  stack_eq : s.stack = []
  isValue : s.term.IsValue
  byte : T = .byte → ∃ b, s.term = .byte b
  function : T.isArrow = true → s.term = .succ ∨ ∃ body, s.term = .lam body

namespace Signature

/-- What may be passed for a parameter of a type: a closed term, a byte, or the successor function. -/
inductive IsArgument (sig : Signature) : Erased → Ty → Prop where
  | term {t : Term} {A : Ty} :
    sig.typeOf .empty t = .ok A → sig.nesting + t.nesting ≤ maxIndex → IsArgument sig t.erase A
  | zero : IsArgument sig .zero .byte
  | byte (b : UInt8) : IsArgument sig (.byte b) .byte
  | succ : IsArgument sig .succ (.arrow .byte .byte)

/-- A term of the first type may be applied to the arguments, and then has the second type. -/
inductive Accepts (sig : Signature) : Ty → List Erased → Ty → Prop where
  | nil (T : Ty) : Accepts sig T [] T
  | cons {A T R : Ty} {a : Erased} {arguments : List Erased} :
    sig.IsArgument a A → Accepts sig T arguments R → Accepts sig (.arrow A T) (a :: arguments) R

variable {sig : Signature} {I : Address → Meaning} {ρ : Nat → Meaning} {t : Term} {A T R : Ty}
  {e a : Erased} {arguments : List Erased} {v : Value}

/-! ## Values of the arguments and of the whole application -/

/-- The values of a closed function type are functions. -/
theorem Defines.values_arrow {B : Ty} (hI : sig.Defines sig I) (hsig : sig.Sound sig.nesting)
    (hA : sig.kindOf [] A = .ok .star) (hB : sig.kindOf [] B = .ok .star) :
    (Ty.arrow A B).values sig I ρ = sig.functions (A.values sig I ρ) (B.values sig I ρ) := by
  refine Ty.values_arrow (hI.kind_eq hsig) ?_ hA hB
  intro i k h
  rw [List.getElem?_nil] at h
  cases h

/-- Closed terms evaluate to values of their types. -/
theorem Checked.evaluates (hsig : sig.Checked) (hI : sig.Defines sig I) (hterms : sig.Realizes sig I)
    (fits : sig.nesting + t.nesting ≤ maxIndex) (ht : sig.typeOf .empty t = .ok T)
    (ρ : Nat → Meaning) : ∃ v ∈ T.values sig I ρ, sig.Evaluates t.erase [] v := by
  refine hterms.evaluates (.refl sig) hI (hsig.sound (by omega)) .empty (.empty ρ) ?_ ht
  simp only [Context.empty, List.length_nil]
  omega

theorem IsArgument.evaluates (h : sig.IsArgument a A) (hsig : sig.Checked) (hI : sig.Defines sig I)
    (hterms : sig.Realizes sig I) (hA : sig.kindOf [] A = .ok .star) (ρ : Nat → Meaning)
    (hfits : sig.nesting ≤ maxIndex) : ∃ v ∈ A.values sig I ρ, sig.Evaluates a [] v := by
  cases h with
  | term ht fits => exact hsig.evaluates hI hterms fits ht ρ
  | zero => exact ⟨.byte 0, ⟨0, rfl⟩, fun k => .single (step_zero [] k)⟩
  | byte b => exact ⟨.byte b, ⟨b, rfl⟩, fun _ => .refl⟩
  | succ =>
    obtain ⟨hbyte, -, -⟩ := kindOf_arrow_iff.mp hA
    refine ⟨.succ, ?_, fun _ => .refl⟩
    rw [hI.values_arrow (hsig.sound hfits) hbyte hbyte]
    exact succ_mem_functions

theorem Accepts.evaluates (h : sig.Accepts T arguments R) (hsig : sig.Checked)
    (hfits : sig.nesting ≤ maxIndex) (hI : sig.Defines sig I) (hterms : sig.Realizes sig I)
    (hT : sig.kindOf [] T = .ok .star) (hv : v ∈ T.values sig I ρ) (he : sig.Evaluates e [] v) :
    sig.kindOf [] R = .ok .star ∧ ∃ w ∈ R.values sig I ρ, sig.Evaluates (e.apply arguments) [] w := by
  induction h generalizing e v with
  | nil => exact ⟨hT, v, hv, he⟩
  | cons ha _ ih =>
    obtain ⟨hA, hrest, -⟩ := kindOf_arrow_iff.mp hT
    rw [hI.values_arrow (hsig.sound hfits) hA hrest] at hv
    obtain ⟨w, hw, hw'⟩ := ha.evaluates hsig hI hterms hA ρ hfits
    obtain ⟨u, hu, hu'⟩ := he.app hv hw' hw
    exact ih hrest hu hu'

/-- A value of a type, with nothing left to do, is a finished state. -/
theorem Defines.finished (hI : sig.Defines sig I) (hsig : sig.Sound sig.nesting)
    (hT : sig.kindOf [] T = .ok .star) (hv : v ∈ T.values sig I ρ) :
    State.Finished T ⟨v.term, v.env, []⟩ := by
  refine ⟨rfl, ?_, ?_, ?_⟩
  · cases v <;> trivial
  · rintro rfl
    obtain ⟨b, rfl⟩ := hv
    exact ⟨b, rfl⟩
  · intro h
    obtain ⟨⟨A, B⟩, hAB⟩ := Option.isSome_iff_exists.mp h
    rw [Ty.eq_arrow_of_asArrow? hAB] at hT hv
    obtain ⟨hA, hB, -⟩ := kindOf_arrow_iff.mp hT
    rw [hI.values_arrow hsig hA hB] at hv
    obtain ⟨frame, hframe, -⟩ := hv
    cases v with
    | byte => cases hframe
    | succ => exact .inl rfl
    | closure body env => exact .inr ⟨body, rfl⟩

/-- The evaluation of a well-typed term, applied to arguments it accepts, ends with a value of the type of the
application. -/
theorem Checked.exists_finished (hsig : sig.Checked) (ht : sig.typeOf .empty t = .ok T)
    (harguments : sig.Accepts T arguments R) (fits : sig.nesting + t.nesting ≤ maxIndex) :
    ∃ final, sig.Steps (.initial (t.erase.apply arguments)) final ∧ sig.next final = .ok none ∧
      final.Finished R := by
  have hsound := hsig.sound (by omega)
  obtain ⟨I, hI, hterms⟩ := hsig.exists_meaning (by omega)
  have ρ : Nat → Meaning := fun _ => .ofSet ∅
  obtain ⟨v, hv, hv'⟩ := hsig.evaluates hI hterms fits ht ρ
  have hT := (kindOf_typeOf_empty hsound ht fits).1
  obtain ⟨hR, w, hw, hw'⟩ := harguments.evaluates hsig (by omega) hI hterms hT hv hv'
  exact ⟨_, hw' [], next_value w, hI.finished hsound hR hw⟩

/-- Every state on the way to a final one makes a transition or is that state. -/
theorem Steps.next_eq {s s' final : State} (hfinal : sig.Steps s final)
    (hhalt : sig.next final = .ok none) (h : sig.Steps s s') :
    ∃ next, sig.next s' = .ok next ∧ (next = none → s' = final) := by
  rcases Relation.ReflTransGen.cases_head (hfinal.of_halted hhalt h) with rfl | ⟨s'', hstep, -⟩
  · exact ⟨none, hhalt, fun _ => rfl⟩
  · exact ⟨some s'', hstep, fun h => (nomatch h)⟩

end Signature

namespace Machine

variable {sig : Signature} {m m' : Machine} {t : Term} {T R : Ty} {arguments : List Erased}
  {s s' final : State}

theorem Used.faithful (h : m.Used sig) : m.signature = sig ∧ m.Faithful := by
  induction h with
  | new => exact ⟨rfl, faithful_new sig⟩
  | step s _ ih =>
    obtain ⟨hsig, hm⟩ := ih
    obtain ⟨-, hsig', hm'⟩ := hm.step s
    exact ⟨hsig'.trans hsig, hm'⟩

/-- A machine that is on the way to a final state makes a transition or has come there. -/
theorem Faithful.step_of_halted (hm : m.Faithful) (hfinal : m.signature.Steps s final)
    (hhalt : m.signature.next final = .ok none) (h : m.Reaches s m' s') :
    ∃ next, (m'.step s').1 = .ok next ∧ (next = none → s' = final) := by
  obtain ⟨hsteps, hsig, hm'⟩ := h.steps hm
  rw [(hm'.step s').1, hsig]
  exact hfinal.next_eq hhalt hsteps

/-- A run on the way to a final state ends where the fuel is spent or in the final state; without a bound it ends
there. -/
theorem Faithful.runWithin_of_halted (hm : m.Faithful) (hfinal : m.signature.Steps s final)
    (hhalt : m.signature.next final = .ok none) (fuel : Option Nat) :
    ∃ outcome m', m.runWithin fuel s = some (.ok outcome, m') ∧
      (outcome.isDone = true → outcome.state = final) := by
  obtain ⟨n, m', h⟩ := hm.exists_haltsIn hfinal hhalt
  cases fuel with
  | none => exact ⟨.done final, m', h.runToEnd_eq, fun _ => rfl⟩
  | some fuel =>
    rcases Nat.lt_or_ge n fuel with hlt | hle
    · exact ⟨.done final, m', congrArg some (h.run_of_lt hlt), fun _ => rfl⟩
    · obtain ⟨cut, m'', hrun⟩ := h.exists_run_of_le hle
      exact ⟨.exhausted cut, m'', congrArg some hrun, fun h => (nomatch h)⟩

/-- A well-typed term, applied to arguments it accepts, is evaluated without failure: from every state that is
reached there is a transition, or the state is finished with a value of the type of the application.  So a run
with any fuel ends where the fuel is spent or in a finished state, and so does the evaluation of the term alone,
with any fuel or without a bound. -/
theorem Used.evaluation_safe (hm : m.Used sig) (hsig : sig.Checked)
    (ht : sig.typeOf .empty t = .ok T) (harguments : sig.Accepts T arguments R)
    (fits : sig.nesting + t.nesting ≤ maxIndex) :
    (∀ m' s, m.Reaches (.initial (t.erase.apply arguments)) m' s →
      ∃ next, (m'.step s).1 = .ok next ∧ (next = none → s.Finished R)) ∧
    (∀ fuel, ∃ outcome, (m.run fuel (.initial (t.erase.apply arguments))).1 = .ok outcome ∧
      (outcome.isDone = true → outcome.state.Finished R)) ∧
    ∀ fuel, ∃ outcome m', m.evaluate fuel t = some (.ok outcome, m') ∧
      (outcome.isDone = true → outcome.state.Finished T) := by
  obtain ⟨rfl, hfaithful⟩ := hm.faithful
  obtain ⟨final, hsteps, hhalt, hfinished⟩ := hsig.exists_finished ht harguments fits
  refine ⟨?_, ?_, ?_⟩
  · intro m' s hreach
    obtain ⟨next, hnext, heq⟩ := hfaithful.step_of_halted hsteps hhalt hreach
    exact ⟨next, hnext, fun hnone => heq hnone ▸ hfinished⟩
  · intro fuel
    obtain ⟨outcome, m', hrun, heq⟩ := hfaithful.runWithin_of_halted hsteps hhalt (some fuel)
    have hresult := congrArg Prod.fst (Option.some.inj hrun)
    exact ⟨outcome, hresult, fun hdone => heq hdone ▸ hfinished⟩
  · intro fuel
    obtain ⟨final, hsteps, hhalt, hfinished⟩ := hsig.exists_finished ht (.nil T) fits
    obtain ⟨outcome, m', hrun, heq⟩ := hfaithful.runWithin_of_halted hsteps hhalt fuel
    exact ⟨outcome, m', hrun, fun hdone => heq hdone ▸ hfinished⟩

/-- The number two, used for bytes, is applied to a byte and a function on bytes without failure. -/
theorem evaluation_safe_numeral :
    let address : Address := ⟨.replicate 32 0⟩
    let sig := Numeral.signature address 2
    let t := Numeral.atByte address (.ref address)
    let T := Ty.arrow .byte (.arrow (.arrow .byte .byte) .byte)
    let s := State.initial (t.erase.apply [.zero, .succ])
    (sig.Checked ∧ sig.typeOf .empty t = .ok T ∧ sig.Accepts T [.zero, .succ] .byte) ∧
    (∀ m' s', (new sig).Reaches s m' s' →
      ∃ next, (m'.step s').1 = .ok next ∧ (next = none → s'.Finished .byte)) ∧
    (∀ fuel, ∃ outcome, ((new sig).run fuel s).1 = .ok outcome ∧
      (outcome.isDone = true → outcome.state.Finished .byte)) ∧
    ∀ fuel, ∃ outcome m', (new sig).evaluate fuel t = some (.ok outcome, m') ∧
      (outcome.isDone = true → outcome.state.Finished T) := by
  intro address sig t T s
  have hsig : sig.Checked := Numeral.checked_signature address 2
  have ht : sig.typeOf .empty t = .ok T :=
    Numeral.typeOf_atByte (Numeral.get?_types_signature address 2) (Numeral.typeOf_ref address 2)
  have harguments : sig.Accepts T [.zero, .succ] .byte := .cons .zero (.cons .succ (.nil _))
  exact ⟨⟨hsig, ht, harguments⟩, Used.evaluation_safe .new hsig ht harguments (by decide)⟩

end Machine

end AddressedF
