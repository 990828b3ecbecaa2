import AddressedF.Machine.Basic
import Mathlib.Logic.Relation

/-!
# Transitions

The machine keeps the erasures it has computed, and this does not show: from one state it makes the
transition that the definitions alone determine.  So runs can be spoken of as sequences of states.

## Main Definitions

* `Signature.next`: the transition out of a state, without a cache
* `Signature.Steps`: states and those that are reached from them
* `Machine.Faithful`: every erasure that was kept is that of the definition
* `Machine.Reaches`: machines and states that single transitions lead to
* `Signature.Evaluates`: a term has a value, whatever is left to do with it

## Main Results

* `Machine.step_fst`: the transitions of a faithful machine are those of its signature
* `Signature.Steps.of_halted`: all states that are reached from one state lie on one way
-/

namespace AddressedF

open Relation

namespace Signature

/-- The erasure of the term at an address. -/
def erasureAt (sig : Signature) (address : Address) : Except MachineError Erased :=
  match sig.terms.get? address with
  | some entry => .ok entry.term.erase
  | none => .error (.undefinedTerm address)

/-- One transition over the definitions of a signature, or nothing if the state is final or stuck. -/
def next (sig : Signature) (s : State) : Except MachineError (Option State) :=
  match s.term with
  | .ref address => (sig.erasureAt address).map fun e => some ⟨e, [], s.stack⟩
  | _ => .ok s.next?

/-- A transition leads from the first state to the second one. -/
def Step (sig : Signature) (s s' : State) : Prop :=
  sig.next s = .ok (some s')

/-- Transitions lead from the first state to the second one. -/
def Steps (sig : Signature) : State → State → Prop :=
  ReflTransGen sig.Step

theorem erasureAt_eq_ok_iff {sig : Signature} {address : Address} {e : Erased} :
    sig.erasureAt address = .ok e ↔ ∃ entry, sig.terms.get? address = some entry ∧ entry.term.erase = e := by
  rw [erasureAt]
  cases sig.terms.get? address <;> simp

end Signature

namespace Machine

/-- Every erasure that was kept is that of the term at its address. -/
def Faithful (m : Machine) : Prop :=
  ∀ address e, m.cache.get? address = some e → m.signature.erasureAt address = .ok e

/-- Single transitions lead from the first machine and state to the second ones. -/
inductive Reaches (m : Machine) (s : State) : Machine → State → Prop where
  | refl : Reaches m s m s
  | step {m' m'' : Machine} {s' s'' : State} :
    Reaches m s m' s' → m'.step s' = (.ok (some s''), m'') → Reaches m s m'' s''

variable {m m' : Machine} {s s' : State} {sig : Signature}

theorem faithful_new (sig : Signature) : (new sig).Faithful :=
  fun _ _ h => (nomatch h)

/-- What `fetch` returns, and what it keeps, is the erasure of the definition. -/
theorem Faithful.fetch (hm : m.Faithful) (address : Address) :
    (m.fetch address).1 = m.signature.erasureAt address ∧
      (m.fetch address).2.signature = m.signature ∧ (m.fetch address).2.Faithful := by
  unfold Machine.fetch
  split
  · rename_i e he
    exact ⟨(hm address e he).symm, rfl, hm⟩
  · split
    · rename_i entry hentry
      have herasure : m.signature.erasureAt address = .ok entry.term.erase := by
        rw [Signature.erasureAt, hentry]
      refine ⟨herasure.symm, rfl, ?_⟩
      intro address' e he
      rw [Table.get?_insert] at he
      split at he
      · rename_i heq
        cases he
        rw [heq]
        exact herasure
      · exact hm address' e he
    · rename_i hnone
      exact ⟨by rw [Signature.erasureAt, hnone], rfl, hm⟩

/-- A faithful machine makes the transitions of its signature and stays faithful. -/
theorem Faithful.step (hm : m.Faithful) (s : State) :
    (m.step s).1 = m.signature.next s ∧
      (m.step s).2.signature = m.signature ∧ (m.step s).2.Faithful := by
  obtain ⟨term, env, stack⟩ := s
  cases term with
  | ref address =>
    obtain ⟨hfst, hsnd⟩ := hm.fetch address
    refine ⟨?_, hsnd⟩
    show (m.fetch address).1.map _ = (m.signature.erasureAt address).map _
    rw [hfst]
  | zero | succ | var | byte | app | lam => exact ⟨rfl, rfl, hm⟩

theorem Reaches.steps (h : m.Reaches s m' s') (hm : m.Faithful) :
    m.signature.Steps s s' ∧ m'.signature = m.signature ∧ m'.Faithful := by
  induction h with
  | refl => exact ⟨.refl, rfl, hm⟩
  | step _ hstep ih =>
    obtain ⟨hsteps, hsig, hm'⟩ := ih
    obtain ⟨hnext, hsig', hm''⟩ := hm'.step _
    rw [hstep] at hnext hsig' hm''
    rw [hsig] at hnext hsig'
    exact ⟨hsteps.tail hnext.symm, hsig', hm''⟩

/-- A run ends in a state that transitions lead to: where the fuel is spent, where no transition applies, or
where one fails. -/
theorem Faithful.run (hm : m.Faithful) (fuel : Nat) (s : State) :
    ∃ s', m.signature.Steps s s' ∧
      ((m.run fuel s).1 = .ok (.exhausted s') ∨
        ((m.run fuel s).1 = .ok (.done s') ∧ m.signature.next s' = .ok none) ∨
        ∃ e, (m.run fuel s).1 = .error e ∧ m.signature.next s' = .error e) := by
  induction fuel generalizing m s with
  | zero => exact ⟨s, .refl, .inl rfl⟩
  | succ fuel ih =>
    obtain ⟨hnext, hsig, hm'⟩ := hm.step s
    rcases hstep : m.step s with ⟨r, m'⟩
    rw [hstep] at hnext hsig hm'
    rcases r with e | _ | s₁
    · rw [run_succ_of_error hstep]
      exact ⟨s, .refl, .inr (.inr ⟨e, rfl, hnext.symm⟩)⟩
    · rw [run_succ_of_none hstep]
      exact ⟨s, .refl, .inr (.inl ⟨rfl, hnext.symm⟩)⟩
    · rw [run_succ_of_some hstep]
      obtain ⟨s', hsteps, hend⟩ := ih hm' s₁
      simp only at hsig
      rw [hsig] at hsteps hend
      exact ⟨s', .head hnext.symm hsteps, hend⟩

end Machine

/-- What a function makes of its argument. -/
def Value.frame? : Value → Option Frame
  | byte _ => none
  | succ => some .succ
  | closure body env => some (.body body env)

/-- A value is the term that stands for it together with the environment of that term. -/
theorem Value.eq_of_term_env {v w : Value} (hterm : v.term = w.term) (henv : v.env = w.env) : v = w := by
  cases v <;> cases w <;> simp_all [Value.term, Value.env]

/-! ## Runs do not branch -/

namespace Signature

variable {sig : Signature} {s s' final : State} {e : Erased} {env : List Value} {v w : Value}
  {k : List Frame}

theorem Step.unique : Relator.RightUnique sig.Step := by
  intro s a b ha hb
  rw [Step, ha] at hb
  cases hb
  rfl

/-- Whatever a state leads to lies before the state where it halts. -/
theorem Steps.of_halted (hfinal : sig.Steps s final) (hhalt : sig.next final = .ok none)
    (h : sig.Steps s s') : sig.Steps s' final := by
  rcases ReflTransGen.total_of_right_unique Step.unique h hfinal with h | h
  · exact h
  · -- nothing lies behind the state where it halts but that state
    rcases ReflTransGen.cases_head h with rfl | ⟨_, hstep, _⟩
    · exact .refl
    · rw [Step, hhalt] at hstep
      cases hstep

/-! ## Single transitions -/

theorem step_var {i : Nat} (h : env[i]? = some v) (k : List Frame) :
    sig.Step ⟨.var i, env, k⟩ ⟨v.term, v.env, k⟩ := by
  show Except.ok ((env[i]?).map _) = _
  rw [h]
  rfl

theorem step_ref {address : Address} {entry : TermEntry} (h : sig.terms.get? address = some entry)
    (env : List Value) (k : List Frame) :
    sig.Step ⟨.ref address, env, k⟩ ⟨entry.term.erase, [], k⟩ := by
  show (sig.erasureAt address).map _ = _
  rw [erasureAt_eq_ok_iff.mpr ⟨entry, h, rfl⟩]
  rfl

theorem step_zero (env : List Value) (k : List Frame) :
    sig.Step ⟨.zero, env, k⟩ ⟨.byte 0, [], k⟩ := rfl

theorem step_app (f a : Erased) (env : List Value) (k : List Frame) :
    sig.Step ⟨.app f a, env, k⟩ ⟨f, env, .arg a env :: k⟩ := rfl

/-- A function waits for its argument. -/
theorem step_function {frame : Frame} (h : v.frame? = some frame) (a : Erased) (env : List Value)
    (k : List Frame) : sig.Step ⟨v.term, v.env, .arg a env :: k⟩ ⟨a, env, frame :: k⟩ := by
  cases v with
  | byte b => cases h
  | succ | closure =>
    cases h
    rfl

/-- An argument is bound. -/
theorem step_bind (v : Value) (body : Erased) (env : List Value) (k : List Frame) :
    sig.Step ⟨v.term, v.env, .body body env :: k⟩ ⟨body, v :: env, k⟩ := by
  cases v <;> rfl

theorem step_succ (b : UInt8) (k : List Frame) :
    sig.Step ⟨.byte b, [], .succ :: k⟩ ⟨.byte (b + 1), [], k⟩ := rfl

/-! ## Evaluation -/

/-- The evaluation of a term ends with a value, whatever is left to do with it. -/
def Evaluates (sig : Signature) (e : Erased) (env : List Value) (v : Value) : Prop :=
  ∀ k, sig.Steps ⟨e, env, k⟩ ⟨v.term, v.env, k⟩

/-- A value with nothing left to do is a final state. -/
theorem next_value (v : Value) : sig.next ⟨v.term, v.env, []⟩ = .ok none := by
  cases v <;> rfl

theorem Evaluates.unique (hv : sig.Evaluates e env v) (hw : sig.Evaluates e env w) : v = w := by
  have h := (hv []).of_halted (next_value v) (hw [])
  rcases ReflTransGen.cases_head h with heq | ⟨_, hstep, _⟩
  · injection heq with hterm henv
    exact (Value.eq_of_term_env hterm henv).symm
  · rw [Step, next_value] at hstep
    cases hstep

end Signature

end AddressedF
