import AddressedF.Proofs.Safety

/-!
# Natural Semantics of the Machine

The machine implements call-by-value evaluation.  The rules for that are given here as a relation between a
term, an environment and a value, which has neither a stack nor states in between.  A term evaluates to a value
by the rules exactly if the machine, started with the term on any stack, comes back to that stack with the
value.

## Main Definitions

* `Signature.BigStep`: the rules of evaluation
* `State.presented?`, `State.Delivers`: a value is given to what is left to do
* `Machine.Returns`: the machine comes back to a stack, and the first time it does so it is with a given value
* `Signature.Resumes`: what the rules make of a value that is given to a list of frames

## Main Results

* `Signature.BigStep.exists_steps`: the machine follows the rules
* `Signature.Step.computes`, `Signature.Returns.computes`: what comes back was computed by the rules
* `Machine.Used.evaluation_iff`: evaluation by the machine is evaluation by the rules

## Design Notes

That the rules follow the machine is shown from the end of a run to its start: if what is computed from a state
is known, then so is what is computed from the state before it.  So a run never has to be cut into the runs for
the parts of a term.
-/

namespace AddressedF

open Relation

namespace Signature

/-- A term evaluates to a value in an environment. -/
inductive BigStep (sig : Signature) : Erased → List Value → Value → Prop where
  | var {i : Nat} {env : List Value} {v : Value} : env[i]? = some v → BigStep sig (.var i) env v
  /-- A stored term is evaluated without variables. -/
  | ref {address : Address} {entry : TermEntry} {env : List Value} {v : Value} :
    sig.terms.get? address = some entry → BigStep sig entry.term.erase [] v →
      BigStep sig (.ref address) env v
  | zero {env : List Value} : BigStep sig .zero env (.byte 0)
  | byte {b : UInt8} {env : List Value} : BigStep sig (.byte b) env (.byte b)
  | succ {env : List Value} : BigStep sig .succ env .succ
  | lam {body : Erased} {env : List Value} : BigStep sig (.lam body) env (.closure body env)
  /-- The body of a function is evaluated where the function was closed, with the argument in front. -/
  | app {f a body : Erased} {env captured : List Value} {w v : Value} :
    BigStep sig f env (.closure body captured) → BigStep sig a env w →
      BigStep sig body (w :: captured) v → BigStep sig (.app f a) env v
  /-- The successor of the last byte is zero. -/
  | appSucc {f a : Erased} {env : List Value} {b : UInt8} :
    BigStep sig f env .succ → BigStep sig a env (.byte b) → BigStep sig (.app f a) env (.byte (b + 1))

end Signature

/-- The value that the term and the environment of a state stand for. -/
def State.presented? : State → Option Value
  | ⟨.byte b, _, _⟩ => some (.byte b)
  | ⟨.succ, _, _⟩ => some .succ
  | ⟨.lam body, env, _⟩ => some (.closure body env)
  | _ => none

/-- A value, with just `k` left to do. -/
structure State.Delivers (k : List Frame) (v : Value) (s : State) : Prop where
  stack_eq : s.stack = k
  presented?_eq : s.presented? = some v

theorem State.delivers_value (v : Value) (k : List Frame) : State.Delivers k v ⟨v.term, v.env, k⟩ := by
  refine ⟨rfl, ?_⟩
  cases v <;> rfl

/-- The machine comes from a state to one that delivers a value to `k`, and the first such state delivers `v`. -/
inductive Machine.Returns (k : List Frame) (v : Value) : Machine → State → Prop where
  | here {m : Machine} {s : State} : s.Delivers k v → Returns k v m s
  | step {m m' : Machine} {s s' : State} :
    (∀ w, ¬ s.Delivers k w) → m.step s = (.ok (some s'), m') → Returns k v m' s' → Returns k v m s

namespace Signature

variable {sig : Signature} {e a body : Erased} {env : List Value} {v w : Value} {k fs : List Frame}
  {s s' : State}

/-! ## Values -/

theorem BigStep.of_presented (h : s.presented? = some v) : sig.BigStep s.term s.env v := by
  obtain ⟨term, env, stack⟩ := s
  cases term with
  | byte b => cases h; exact .byte
  | succ => cases h; exact .succ
  | lam body => cases h; exact .lam
  | zero | ref | var | app => cases h

theorem BigStep.value (v : Value) : sig.BigStep v.term v.env v :=
  .of_presented (State.delivers_value v []).presented?_eq

/-- A term has at most one value. -/
theorem BigStep.unique (hv : sig.BigStep e env v) (hw : sig.BigStep e env w) : v = w := by
  induction hv generalizing w with
  | var h =>
    cases hw with
    | var h' => exact Option.some.inj (h.symm.trans h')
  | ref h _ ih =>
    cases hw with
    | ref h' hw =>
      cases Option.some.inj (h.symm.trans h')
      exact ih hw
  | zero | byte | succ | lam =>
    cases hw
    rfl
  | app _ _ _ ihf iha ihbody =>
    cases hw with
    | app hf ha hbody =>
      cases ihf hf
      cases iha ha
      exact ihbody hbody
    | appSucc hf ha => cases ihf hf
  | appSucc _ _ ihf iha =>
    cases hw with
    | app hf ha hbody => cases ihf hf
    | appSucc hf ha =>
      cases iha ha
      rfl

/-- A value is passed on just like the term that stands for it, whichever way the state presents it. -/
theorem next_of_delivers (h : s.Delivers k v) : sig.next s = sig.next ⟨v.term, v.env, k⟩ := by
  obtain ⟨term, env, stack⟩ := s
  obtain ⟨rfl, hv⟩ := h
  cases term with
  | lam body =>
    cases hv
    rfl
  | byte | succ =>
    -- the environment is not looked at, but which rule applies depends on the stack
    cases hv
    rcases stack with _ | ⟨frame, stack⟩
    · rfl
    · cases frame <;> rfl
  | zero | ref | var | app => cases hv

theorem step_iff_of_delivers (h : s.Delivers k v) : sig.Step s s' ↔ sig.Step ⟨v.term, v.env, k⟩ s' := by
  rw [Step, Step, next_of_delivers h]

/-- A value with nothing left to do is a final state. -/
theorem next_of_delivers_nil (h : s.Delivers [] v) : sig.next s = .ok none :=
  (next_of_delivers h).trans (next_value v)

/-! ## What is done with a value -/

/-- A value that is given to an argument is a function, and waits for it. -/
theorem Step.of_arg (hstep : sig.Step s s') (h : s.Delivers (.arg a env :: k) v) :
    ∃ frame, v.frame? = some frame ∧ s' = ⟨a, env, frame :: k⟩ := by
  have hstep' := (step_iff_of_delivers h).mp hstep
  cases hframe : v.frame? with
  | none =>
    -- a byte is no function, and the machine is stuck
    cases v with
    | byte => cases hstep'
    | succ | closure => cases hframe
  | some frame => exact ⟨frame, rfl, Step.unique hstep' (step_function hframe a env k)⟩

/-- A value that is given to a function body is bound there. -/
theorem Step.of_body (hstep : sig.Step s s') (h : s.Delivers (.body body env :: k) v) :
    s' = ⟨body, v :: env, k⟩ :=
  Step.unique ((step_iff_of_delivers h).mp hstep) (step_bind v body env k)

/-- A value that is to be increased is a byte. -/
theorem Step.of_succ (hstep : sig.Step s s') (h : s.Delivers (.succ :: k) v) :
    ∃ b, v = .byte b ∧ s' = ⟨.byte (b + 1), [], k⟩ := by
  have hstep' := (step_iff_of_delivers h).mp hstep
  cases v with
  | byte b => exact ⟨b, rfl, Step.unique hstep' (step_succ b k)⟩
  | succ | closure =>
    -- a function has no successor, and the machine is stuck
    cases hstep'

/-! ## The machine follows the rules -/

/-- A run that delivers a value goes on with what is made of the value. -/
theorem Steps.tail_of_delivers {s₁ : State} (hsteps : sig.Steps s s₁) (h : s₁.Delivers k v)
    (hstep : sig.Step ⟨v.term, v.env, k⟩ s') : sig.Steps s s' :=
  hsteps.tail ((step_iff_of_delivers h).mpr hstep)

/-- What evaluates by the rules is delivered to whatever is left to do. -/
theorem BigStep.exists_steps (h : sig.BigStep e env v) (k : List Frame) :
    ∃ s, sig.Steps ⟨e, env, k⟩ s ∧ s.Delivers k v := by
  induction h generalizing k with
  | @var i env v h =>
    exact ⟨⟨v.term, v.env, k⟩, .single (step_var h k), State.delivers_value v k⟩
  | @ref address entry env v h _ ih =>
    obtain ⟨s, hsteps, hs⟩ := ih k
    exact ⟨s, .head (step_ref h env k) hsteps, hs⟩
  | @zero env => exact ⟨_, .single (step_zero env k), rfl, rfl⟩
  | byte | succ | lam => exact ⟨_, .refl, rfl, rfl⟩
  | @app f a body env captured w v _ _ _ ihf iha ihbody =>
    obtain ⟨s₁, hf, hs₁⟩ := ihf (.arg a env :: k)
    obtain ⟨s₂, ha, hs₂⟩ := iha (.body body captured :: k)
    obtain ⟨s₃, hbody, hs₃⟩ := ihbody k
    have hfun := Steps.tail_of_delivers (hf.head (step_app f a env k)) hs₁ (step_function rfl a env k)
    have harg := Steps.tail_of_delivers (hfun.trans ha) hs₂ (step_bind w body captured k)
    exact ⟨s₃, harg.trans hbody, hs₃⟩
  | @appSucc f a env b _ _ ihf iha =>
    obtain ⟨s₁, hf, hs₁⟩ := ihf (.arg a env :: k)
    obtain ⟨s₂, ha, hs₂⟩ := iha (.succ :: k)
    have hfun := Steps.tail_of_delivers (hf.head (step_app f a env k)) hs₁ (step_function rfl a env k)
    exact ⟨_, Steps.tail_of_delivers (hfun.trans ha) hs₂ (step_succ b k), rfl, rfl⟩

/-! ## The rules follow the machine -/

/-- What the rules make of a value that is given to frames, the first of them first. -/
inductive Resumes (sig : Signature) : List Frame → Value → Value → Prop where
  | nil {v : Value} : Resumes sig [] v v
  | arg {g w v : Value} {frame : Frame} {a : Erased} {env : List Value} {fs : List Frame} :
    g.frame? = some frame → sig.BigStep a env w → Resumes sig (frame :: fs) w v →
      Resumes sig (.arg a env :: fs) g v
  | body {w u v : Value} {body : Erased} {env : List Value} {fs : List Frame} :
    sig.BigStep body (w :: env) u → Resumes sig fs u v → Resumes sig (.body body env :: fs) w v
  | succ {b : UInt8} {v : Value} {fs : List Frame} :
    Resumes sig fs (.byte (b + 1)) v → Resumes sig (.succ :: fs) (.byte b) v

/-- By the rules, a state with the frames `fs` to go through has the result `v`. -/
def Computes (sig : Signature) (fs : List Frame) (v : Value) (s : State) : Prop :=
  ∃ w, sig.BigStep s.term s.env w ∧ sig.Resumes fs w v

/-- An application has the result of its function, given to its argument. -/
theorem Computes.app {f a : Erased} (h : sig.Computes (.arg a env :: fs) v ⟨f, env, .arg a env :: k⟩) :
    sig.Computes fs v ⟨.app f a, env, k⟩ := by
  obtain ⟨g, hf, harg⟩ := h
  cases harg with
  | arg hframe ha hrest =>
    cases g with
    | byte b => cases hframe
    | succ =>
      cases hframe
      cases hrest with
      | succ hrest => exact ⟨_, .appSucc hf ha, hrest⟩
    | closure body captured =>
      cases hframe
      cases hrest with
      | body hbody hrest => exact ⟨_, .app hf ha hbody, hrest⟩

/-- A state that delivers a value to a frame passes it on as the rules say. -/
theorem Step.resumes {frame : Frame} (hstep : sig.Step s s') (h : s.Delivers (frame :: (fs ++ k)) w)
    (ih : ∀ fs', s'.stack = fs' ++ k → sig.Computes fs' v s') : sig.Resumes (frame :: fs) w v := by
  cases frame with
  | arg a env' =>
    obtain ⟨frame, hframe, rfl⟩ := hstep.of_arg h
    obtain ⟨u, hu, hrest⟩ := ih (frame :: fs) rfl
    exact .arg hframe hu hrest
  | body body env' =>
    obtain rfl := hstep.of_body h
    obtain ⟨u, hu, hrest⟩ := ih fs rfl
    exact .body hu hrest
  | succ =>
    obtain ⟨b, rfl, rfl⟩ := hstep.of_succ h
    obtain ⟨u, hu, hrest⟩ := ih fs rfl
    cases hu
    exact .succ hrest

/-- What the next state computes is computed by the state before it, unless a value was delivered there. -/
theorem Step.computes (hstep : sig.Step s s') (hstack : s.stack = fs ++ k) (hfirst : ∀ w, ¬ s.Delivers k w)
    (ih : ∀ fs', s'.stack = fs' ++ k → sig.Computes fs' v s') : sig.Computes fs v s := by
  cases hw : s.presented? with
  | some w =>
    cases fs with
    | nil => exact absurd ⟨hstack, hw⟩ (hfirst w)
    | cons frame fs => exact ⟨w, .of_presented hw, hstep.resumes ⟨hstack, hw⟩ ih⟩
  | none =>
    obtain ⟨term, env, stack⟩ := s
    obtain rfl : stack = fs ++ k := hstack
    cases term with
    | byte | succ | lam => cases hw
    | var i =>
      obtain ⟨u, hu, rfl⟩ := Option.map_eq_some_iff.mp (Except.ok.inj hstep)
      obtain ⟨u', hu', hrest⟩ := ih fs rfl
      cases (BigStep.value u).unique hu'
      exact ⟨u, .var hu, hrest⟩
    | ref address =>
      obtain ⟨e, he, hs'⟩ := map_eq_ok_iff.mp hstep
      cases hs'
      obtain ⟨entry, hentry, rfl⟩ := erasureAt_eq_ok_iff.mp he
      obtain ⟨u, hu, hrest⟩ := ih fs rfl
      exact ⟨u, .ref hentry hu, hrest⟩
    | zero =>
      cases hstep
      obtain ⟨u, hu, hrest⟩ := ih fs rfl
      cases hu
      exact ⟨_, .zero, hrest⟩
    | app f a =>
      cases hstep
      exact (ih (.arg a env :: fs) rfl).app

end Signature

namespace Machine

variable {sig : Signature} {m : Machine} {e : Erased} {env : List Value} {v : Value} {k fs : List Frame}
  {s s' final : State}

/-- A value that comes back to a stack was computed by the rules. -/
theorem Returns.computes (h : m.Returns k v s) (hm : m.Faithful) (hstack : s.stack = fs ++ k) :
    m.signature.Computes fs v s := by
  induction h generalizing fs with
  | here hs =>
    obtain rfl := List.self_eq_append_left.mp (hs.stack_eq.symm.trans hstack)
    exact ⟨v, .of_presented hs.presented?_eq, .nil⟩
  | @step m m' s s' hfirst hstep _ ih =>
    obtain ⟨hnext, hsig, hm'⟩ := hm.step s
    rw [hstep] at hnext hsig hm'
    refine Signature.Step.computes hnext.symm hstack hfirst ?_
    intro fs' hstack'
    rw [← hsig]
    exact ih hm' hstack'

theorem Returns.bigStep (h : m.Returns k v ⟨e, env, k⟩) (hm : m.Faithful) : m.signature.BigStep e env v := by
  have hstack : (⟨e, env, k⟩ : State).stack = [] ++ k := rfl
  obtain ⟨w, hw, hrest⟩ := h.computes hm hstack
  cases hrest
  exact hw

/-- A machine that comes to a state where a value is delivered has come to a first one. -/
theorem Faithful.exists_returns (hm : m.Faithful) (hsteps : m.signature.Steps s s') (h : s'.Delivers k v) :
    ∃ w, m.Returns k w s := by
  generalize hsig : m.signature = sig at hsteps
  induction hsteps using ReflTransGen.head_induction_on generalizing m with
  | refl => exact ⟨v, .here h⟩
  | @head s s₁ hstep _ ih =>
    by_cases hs : ∃ w, s.Delivers k w
    · obtain ⟨w, hw⟩ := hs
      exact ⟨w, .here hw⟩
    · obtain ⟨hnext, hsig', hm'⟩ := hm.step s
      rcases hrun : m.step s with ⟨r, m'⟩
      rw [hrun] at hnext hsig' hm'
      simp only at hnext
      rw [hsig, hstep] at hnext
      rw [hnext] at hrun
      obtain ⟨w, hw⟩ := ih hm' (hsig'.trans hsig)
      exact ⟨w, .step (not_exists.mp hs) hrun hw⟩

theorem Faithful.returns_iff (hm : m.Faithful) :
    m.Returns k v ⟨e, env, k⟩ ↔ m.signature.BigStep e env v := by
  constructor
  · intro h
    exact h.bigStep hm
  · intro h
    obtain ⟨s, hsteps, hs⟩ := h.exists_steps k
    obtain ⟨w, hw⟩ := hm.exists_returns hsteps hs
    rwa [h.unique (hw.bigStep hm)]

/-- The state where the machine halts with a value is the first one where the value is delivered. -/
theorem Faithful.bigStep_of_steps (hm : m.Faithful) (hsteps : m.signature.Steps ⟨e, env, []⟩ final)
    (hfinal : final.Delivers [] v) : m.signature.BigStep e env v := by
  obtain ⟨w, hw⟩ := hm.exists_returns hsteps hfinal
  have hbig := hw.bigStep hm
  obtain ⟨s, hsteps', hs⟩ := hbig.exists_steps []
  -- both states are final, and runs do not branch
  have hlast := hsteps'.of_halted (Signature.next_of_delivers_nil hs) hsteps
  rcases ReflTransGen.cases_head hlast with rfl | ⟨_, hstep, _⟩
  · have heq := hs.presented?_eq.symm.trans hfinal.presented?_eq
    exact Option.some.inj heq ▸ hbig
  · rw [Signature.Step, Signature.next_of_delivers_nil hfinal] at hstep
    cases hstep

/-- The machine implements the rules of evaluation.  With nothing else to do, it halts with a value exactly if
the term has that value by the rules; and on any stack, it first comes back to the stack with a value exactly if
the term has that value by the rules. -/
theorem Used.evaluation_iff (hm : m.Used sig) (e : Erased) (env : List Value) (v : Value) :
    ((∃ fuel final, (m.run fuel ⟨e, env, []⟩).1 = .ok (.done final) ∧ final.Delivers [] v) ↔
      sig.BigStep e env v) ∧
    ∀ k, m.Returns k v ⟨e, env, k⟩ ↔ sig.BigStep e env v := by
  obtain ⟨rfl, hfaithful⟩ := hm.faithful
  refine ⟨⟨?_, ?_⟩, fun k => hfaithful.returns_iff⟩
  · rintro ⟨fuel, final, hrun, hfinal⟩
    obtain ⟨s, hsteps, hend⟩ := hfaithful.run fuel ⟨e, env, []⟩
    rw [hrun] at hend
    rcases hend with hend | ⟨hend, -⟩ | ⟨_, hend, -⟩
    · cases hend
    · cases hend
      exact hfaithful.bigStep_of_steps hsteps hfinal
    · cases hend
  · intro h
    obtain ⟨final, hsteps, hfinal⟩ := h.exists_steps []
    obtain ⟨n, m', h⟩ := hfaithful.exists_haltsIn hsteps (Signature.next_of_delivers_nil hfinal)
    exact ⟨n + 1, final, congrArg Prod.fst (h.run_of_lt n.lt_succ_self), hfinal⟩

/-- The successor function is passed to a function that applies it twice, and the byte that comes back is past
the last one. -/
theorem evaluation_iff_twice :
    let twice := Erased.lam (.lam (.app (.var 1) (.app (.var 1) (.var 0))))
    let e := Erased.app (.app twice .succ) (.byte 255)
    let m := Machine.new .empty
    (m.Used .empty ∧ Signature.empty.BigStep e [] (.byte 1)) ∧
    (∃ fuel final, (m.run fuel ⟨e, [], []⟩).1 = .ok (.done final) ∧ final.Delivers [] (.byte 1)) ∧
    ∀ k, m.Returns k (.byte 1) ⟨e, [], k⟩ := by
  intro twice e m
  have hm : m.Used .empty := .new
  have honce : Signature.empty.BigStep (.app (.var 1) (.var 0)) [.byte 255, .succ] (.byte (255 + 1)) :=
    .appSucc (.var rfl) (.var rfl)
  have he : Signature.empty.BigStep e [] (.byte (255 + 1 + 1)) :=
    .app (.app .lam .succ .lam) .byte (.appSucc (.var rfl) honce)
  obtain ⟨hrun, hreturns⟩ := hm.evaluation_iff e [] (.byte 1)
  exact ⟨⟨hm, he⟩, hrun.mpr he, fun k => (hreturns k).mpr he⟩

end Machine

end AddressedF
