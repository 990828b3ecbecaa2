import AddressedF.Proofs.BigStep
import AddressedF.Proofs.Fuel

/-!
# Evaluation of Closed Programs

A closed program is evaluated without a look at its types.  Whatever it does, every variable has a value where it is
looked up.  So the machine stops only with a value: one that nothing is left to be done with, or one of the wrong
shape for what is left.

## Main Definitions

* `Erased.ClosedUnder`: the free variables of an erased term are among so many
* `State.WellScoped`: everything in a state has values for its free variables, at any depth
* `State.Halted`: a value, and nothing to do with it that its shape allows

## Main Results

* `Signature.next_eq_none_iff`: the states that have no transition
* `Signature.Step.wellScoped`: transitions keep what they need in scope
* `Machine.Used.closed_evaluation`: evaluation of closed programs over closed definitions

## Design Notes

Environments are captured in values, values stand in environments, and both stand in frames.  So being in scope is
asked of all values that can be reached from a state, and of a function body with one variable more than it has
captured values, for the argument.
-/

namespace AddressedF

/-- The free variables of an erased term are among the first so many. -/
def Erased.ClosedUnder (bound : Nat) : Erased → Prop
  | .zero | .succ | .ref _ | .byte _ => True
  | .var i => i < bound
  | .app f a => f.ClosedUnder bound ∧ a.ClosedUnder bound
  | .lam body => body.ClosedUnder (bound + 1)

instance Erased.decidableClosedUnder : (bound : Nat) → (e : Erased) → Decidable (e.ClosedUnder bound)
  | _, .zero | _, .succ | _, .ref _ | _, .byte _ => .isTrue trivial
  | bound, .var i => inferInstanceAs (Decidable (i < bound))
  | bound, .app f a =>
    have := decidableClosedUnder bound f
    have := decidableClosedUnder bound a
    inferInstanceAs (Decidable (f.ClosedUnder bound ∧ a.ClosedUnder bound))
  | bound, .lam body => decidableClosedUnder (bound + 1) body

/-- Every closure in a value, at any depth, has captured values for all variables of its body but the parameter. -/
inductive Value.WellScoped : Value → Prop where
  | byte (b : UInt8) : WellScoped (.byte b)
  | succ : WellScoped .succ
  | closure {body : Erased} {env : List Value} :
    body.ClosedUnder (env.length + 1) → (∀ v ∈ env, WellScoped v) → WellScoped (.closure body env)

/-- What is left to do has values for its free variables, but for the one that it binds. -/
def Frame.WellScoped : Frame → Prop
  | arg a env => a.ClosedUnder env.length ∧ ∀ v ∈ env, v.WellScoped
  | body e env => e.ClosedUnder (env.length + 1) ∧ ∀ v ∈ env, v.WellScoped
  | succ => True

/-- The term of a state, the closures in its environment and all that is left to do have values for their free
variables. -/
structure State.WellScoped (s : State) : Prop where
  term : s.term.ClosedUnder s.env.length
  env : ∀ v ∈ s.env, v.WellScoped
  stack : ∀ frame ∈ s.stack, frame.WellScoped

/-- A value that nothing can be done with. -/
inductive State.Halted : State → Prop where
  /-- Nothing is left to do. -/
  | finished {e : Erased} (env : List Value) : e.IsValue → Halted ⟨e, env, []⟩
  /-- A byte is no function. -/
  | byte (b : UInt8) (env : List Value) (a : Erased) (env' : List Value) (k : List Frame) :
    Halted ⟨.byte b, env, .arg a env' :: k⟩
  /-- A function has no successor, and the successor function has none. -/
  | succ (env : List Value) (k : List Frame) : Halted ⟨.succ, env, .succ :: k⟩
  | lam (body : Erased) (env : List Value) (k : List Frame) : Halted ⟨.lam body, env, .succ :: k⟩

variable {s s' : State}

/-! ## States without a transition -/

/-- There is no transition from halted states and from unbound variables, and there is one from all others or it
fails. -/
theorem Signature.next_eq_none_iff {sig : Signature} :
    sig.next s = .ok none ↔ s.Halted ∨ ∃ i, s.term = .var i ∧ s.env[i]? = none := by
  obtain ⟨term, env, stack⟩ := s
  constructor
  · intro h
    cases term with
    | ref address =>
      obtain ⟨e, -, hsome⟩ := map_eq_ok_iff.mp h
      cases hsome
    | var i => exact .inr ⟨i, rfl, Option.map_eq_none_iff.mp (Except.ok.inj h)⟩
    | zero | app => cases h
    | byte b =>
      rcases stack with _ | ⟨frame, k⟩
      · exact .inl (.finished env trivial)
      · cases frame with
        | arg a env' => exact .inl (.byte b env a env' k)
        | body | succ => cases h
    | succ =>
      rcases stack with _ | ⟨frame, k⟩
      · exact .inl (.finished env trivial)
      · cases frame with
        | succ => exact .inl (.succ env k)
        | arg | body => cases h
    | lam body =>
      rcases stack with _ | ⟨frame, k⟩
      · exact .inl (.finished env trivial)
      · cases frame with
        | succ => exact .inl (.lam body env k)
        | arg | body => cases h
  · rintro (h | ⟨i, h, hi⟩)
    · cases h with
      | finished _ hvalue =>
        cases term with
        | byte | succ | lam => rfl
        | zero | ref | var | app => cases hvalue
      | byte | succ | lam => rfl
    · cases h
      exact congrArg Except.ok (Option.map_eq_none_iff.mpr hi)

/-! ## Transitions keep what they need in scope -/

namespace Value.WellScoped

variable {v : Value} {frame : Frame}

/-- The term that stands for a value is closed under the environment of that term. -/
theorem term (h : v.WellScoped) : v.term.ClosedUnder v.env.length := by
  cases h with
  | byte | succ => trivial
  | closure hbody _ => exact hbody

theorem env (h : v.WellScoped) : ∀ w ∈ v.env, w.WellScoped := by
  cases h with
  | byte | succ => exact List.forall_mem_nil _
  | closure _ henv => exact henv

theorem of_presented (hs : s.WellScoped) (h : s.presented? = some v) : v.WellScoped := by
  obtain ⟨term, env, stack⟩ := s
  cases term with
  | byte b =>
    cases h
    exact .byte b
  | succ =>
    cases h
    exact .succ
  | lam body =>
    cases h
    exact .closure hs.term hs.env
  | zero | ref | var | app => cases h

theorem frame? (h : v.WellScoped) (hframe : v.frame? = some frame) : frame.WellScoped := by
  cases h with
  | byte => cases hframe
  | succ =>
    cases hframe
    trivial
  | closure hbody henv =>
    cases hframe
    exact ⟨hbody, henv⟩

end Value.WellScoped

namespace Signature

variable {sig : Signature} {v : Value} {k : List Frame}

/-- All stored terms are closed, with no variable left by their erasure. -/
def ClosedTerms (sig : Signature) : Prop :=
  ∀ address entry, sig.terms.get? address = some entry → entry.term.erase.ClosedUnder 0

/-- What is done with a value keeps everything in scope. -/
theorem Step.wellScoped_of_delivers (hstep : sig.Step s s') (h : s.Delivers k v) (hs : s.WellScoped) :
    s'.WellScoped := by
  have hv : v.WellScoped := .of_presented hs h.presented?_eq
  have hstack := hs.stack
  rw [h.stack_eq] at hstack
  cases k with
  | nil =>
    rw [Step, next_of_delivers_nil h] at hstep
    cases hstep
  | cons frame k =>
    obtain ⟨hframe, hk⟩ := List.forall_mem_cons.mp hstack
    cases frame with
    | arg a env =>
      obtain ⟨frame, hv', rfl⟩ := hstep.of_arg h
      exact ⟨hframe.1, hframe.2, List.forall_mem_cons.mpr ⟨hv.frame? hv', hk⟩⟩
    | body e env =>
      obtain rfl := hstep.of_body h
      exact ⟨hframe.1, List.forall_mem_cons.mpr ⟨hv, hframe.2⟩, hk⟩
    | succ =>
      obtain ⟨b, -, rfl⟩ := hstep.of_succ h
      exact ⟨trivial, List.forall_mem_nil _, hk⟩

/-- Over closed definitions, a transition keeps everything in scope. -/
theorem Step.wellScoped (hsig : sig.ClosedTerms) (hstep : sig.Step s s') (hs : s.WellScoped) :
    s'.WellScoped := by
  cases hv : s.presented? with
  | some v => exact hstep.wellScoped_of_delivers ⟨rfl, hv⟩ hs
  | none =>
    obtain ⟨term, env, stack⟩ := s
    obtain ⟨hterm, henv, hstack⟩ := hs
    cases term with
    | byte | succ | lam => cases hv
    | var i =>
      obtain ⟨v, hi, rfl⟩ := Option.map_eq_some_iff.mp (Except.ok.inj hstep)
      have hv : v.WellScoped := henv v (List.mem_of_getElem? hi)
      exact ⟨hv.term, hv.env, hstack⟩
    | ref address =>
      -- a definition is evaluated without an environment, so it has to be closed
      obtain ⟨e, he, hs'⟩ := map_eq_ok_iff.mp hstep
      cases hs'
      obtain ⟨entry, hentry, rfl⟩ := erasureAt_eq_ok_iff.mp he
      exact ⟨hsig address entry hentry, List.forall_mem_nil _, hstack⟩
    | zero =>
      cases hstep
      exact ⟨trivial, List.forall_mem_nil _, hstack⟩
    | app f a =>
      cases hstep
      exact ⟨hterm.1, henv, List.forall_mem_cons.mpr ⟨⟨hterm.2, henv⟩, hstack⟩⟩

theorem Steps.wellScoped (hsig : sig.ClosedTerms) (hsteps : sig.Steps s s') (hs : s.WellScoped) :
    s'.WellScoped := by
  induction hsteps with
  | refl => exact hs
  | tail _ hstep ih => exact hstep.wellScoped hsig ih

end Signature

/-- In a state where everything is in scope, a variable has a value. -/
theorem State.WellScoped.exists_value (h : s.WellScoped) {i : Nat} (hi : s.term = .var i) :
    ∃ v, s.env[i]? = some v := by
  have hterm := h.term
  rw [hi] at hterm
  exact ⟨s.env[i], List.getElem?_eq_getElem hterm⟩

/-- Where everything is in scope, the states without a transition are the halted ones. -/
theorem State.WellScoped.next_eq_none_iff {sig : Signature} (h : s.WellScoped) :
    sig.next s = .ok none ↔ s.Halted := by
  rw [Signature.next_eq_none_iff, or_iff_left]
  rintro ⟨i, hi, hnone⟩
  obtain ⟨v, hv⟩ := h.exists_value hi
  cases hnone.symm.trans hv

namespace Machine

variable {sig : Signature} {m m' : Machine} {e : Erased} {fuel : Option Nat} {final : State}

/-- A closed term, in the state where its evaluation starts. -/
theorem wellScoped_initial (he : e.ClosedUnder 0) : (State.initial e).WellScoped :=
  ⟨he, List.forall_mem_nil _, List.forall_mem_nil _⟩

/-- A run that halts, with a bound on its transitions or without one, has made transitions to where it halts, and
there is none from there. -/
theorem Faithful.of_runWithin (hm : m.Faithful) (h : (.ok (.done final), m') ∈ m.runWithin fuel s) :
    m.signature.Steps s final ∧ m.signature.next final = .ok none := by
  obtain ⟨n, hrun⟩ : ∃ n, m.run n s = (.ok (.done final), m') := by
    cases fuel with
    | some n => exact ⟨n, Option.some.inj h⟩
    | none =>
      obtain ⟨n, hrun, -⟩ := runToEnd_eq_some_iff.mp h
      exact ⟨n, hrun⟩
  obtain ⟨s', hsteps, hend⟩ := hm.run n s
  rw [hrun] at hend
  rcases hend with hend | ⟨hend, hnone⟩ | ⟨_, hend, -⟩
  · cases hend
  · cases hend
    exact ⟨hsteps, hnone⟩
  · cases hend

/-- A closed program is evaluated over closed definitions, whatever they do.  In all states that are reached,
everything has values for its free variables, and so has the term if it is a variable; and the states that no
transition leads on from are the halted ones.  So a run that halts, with a bound on its transitions or without one,
does so with a value that nothing can be done with. -/
theorem Used.closed_evaluation (hm : m.Used sig) (hsig : sig.ClosedTerms) (he : e.ClosedUnder 0) :
    (∀ m' s, m.Reaches (.initial e) m' s →
      s.WellScoped ∧ (∀ i, s.term = .var i → ∃ v, s.env[i]? = some v) ∧
        ((m'.step s).1 = .ok none ↔ s.Halted)) ∧
    ∀ fuel m' final, (.ok (.done final), m') ∈ m.runWithin fuel (.initial e) → final.Halted := by
  obtain ⟨rfl, hfaithful⟩ := hm.faithful
  have hinitial := wellScoped_initial he
  constructor
  · intro m' s hreach
    obtain ⟨hsteps, hsame, hfaithful'⟩ := hreach.steps hfaithful
    have hs := hsteps.wellScoped hsig hinitial
    rw [(hfaithful'.step s).1, hsame]
    exact ⟨hs, fun _ => hs.exists_value, hs.next_eq_none_iff⟩
  · intro fuel m' final hrun
    obtain ⟨hsteps, hnone⟩ := hfaithful.of_runWithin hrun
    exact (hsteps.wellScoped hsig hinitial).next_eq_none_iff.mp hnone

/-- A stored term that has no type applies its argument to itself.  The argument is a byte, and the machine stops
with it under the argument that it was to take. -/
theorem closed_evaluation_stuck :
    let address : Address := ⟨.replicate 32 0⟩
    let sig := Signature.empty.addTerm address (.lam .byte (.app (.var 0) (.var 0))) .byte
    let e := Erased.app (.ref address) (.byte 1)
    let final : State := ⟨.byte 1, [], [.arg (.var 0) [.byte 1]]⟩
    ((new sig).Used sig ∧ sig.ClosedTerms ∧ e.ClosedUnder 0) ∧
    (∀ m' s, (new sig).Reaches (.initial e) m' s →
      s.WellScoped ∧ (∀ i, s.term = .var i → ∃ v, s.env[i]? = some v) ∧
        ((m'.step s).1 = .ok none ↔ s.Halted)) ∧
    (∃ m', (.ok (.done final), m') ∈ (new sig).runWithin (some 7) (.initial e)) ∧ final.Halted := by
  intro address sig e final
  have hsig : sig.ClosedTerms := by
    intro a entry h
    rw [Signature.get?_terms_addTerm] at h
    split at h
    · cases h
      decide
    · cases h
  have he : e.ClosedUnder 0 := by decide
  obtain ⟨hreached, hhalted⟩ := Used.closed_evaluation .new hsig he
  have hrun : (.ok (.done final), ((new sig).run 7 (.initial e)).2) ∈ (new sig).runWithin (some 7) (.initial e) :=
    rfl
  exact ⟨⟨.new, hsig, he⟩, hreached, ⟨_, hrun⟩, hhalted (some 7) _ final hrun⟩

end Machine

end AddressedF
