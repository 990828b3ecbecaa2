import AddressedF.Proofs.Checked
import AddressedF.Proofs.Fuel
import AddressedF.Proofs.Transition

/-!
# What Was Kept Does Not Show

A machine keeps the erasures that it has computed, over any number of runs and while definitions are added.  It
answers like a machine that has kept nothing: whatever it was asked before, however that ended, and even if a
definition was missing then that is there now.

## Main Definitions

* `Machine.Call`, `Machine.perform`: what may be asked of a machine, and its answer
* `Machine.Session`: machines that were asked before, with definitions added in between
* `Machine.Transparent`: a computation whose result does not depend on what was kept

## Main Results

* `Machine.transparent_step`, `Machine.transparent_run`, `Machine.transparent_runToEnd`: transitions and runs are
  transparent
* `Machine.Session.cache_transparent`: so is every call, and only erasures of definitions are kept

## Design Notes

Two faithful machines over one signature are compared, and neither of them has to be the one that kept nothing.
So the induction on a run can take both of them one transition further.  A definition is never replaced, which
is why an erasure that was right when it was kept stays right.
-/

namespace AddressedF

namespace Machine

/-! ## Calls and sessions -/

/-- What may be asked of a machine.  A run has a bound on its transitions or none. -/
inductive Call where
  /-- One transition. -/
  | step (s : State)
  /-- A run from any state. -/
  | run (fuel : Option Nat) (s : State)
  /-- The evaluation of a closed erased term. -/
  | runErased (fuel : Option Nat) (e : Erased)
  /-- The evaluation of a closed term of the core calculus. -/
  | evaluate (fuel : Option Nat) (t : Term)

/-- What a machine answers. -/
inductive Answer where
  | stepped (result : Except MachineError (Option State))
  | ended (result : Except MachineError Outcome)

/-- The answer to a call and the machine as it is left.  There is none if a run without a bound has no end. -/
def perform (m : Machine) : Call → Option (Answer × Machine)
  | .step s => some (Prod.map .stepped id (m.step s))
  | .run fuel s => (m.runWithin fuel s).map (Prod.map .ended id)
  | .runErased fuel e => (m.runWithin fuel (.initial e)).map (Prod.map .ended id)
  | .evaluate fuel t => (m.evaluate fuel t).map (Prod.map .ended id)

/-- Machines that had kept nothing at first.  They may have answered calls since, and definitions may have been
added that nothing checked. -/
inductive Session : Machine → Prop where
  | new (sig : Signature) : Session (.new sig)
  | perform {m m' : Machine} {call : Call} {answer : Answer} :
    Session m → (answer, m') ∈ m.perform call → Session m'
  | addType {m : Machine} (address : Address) (d : TypeDef) (k : Kind) :
    Session m → Session { m with signature := m.signature.addType address d k }
  | addTerm {m : Machine} (address : Address) (t : Term) (T : Ty) :
    Session m → Session { m with signature := m.signature.addTerm address t T }

/-! ## Faithful machines -/

variable {α β : Type} {m m' : Machine} {s : State} {result : Except MachineError Outcome}

/-- What was kept stays right when definitions are added. -/
theorem Faithful.of_sub {sig : Signature} (hm : m.Faithful) (h : m.signature.Sub sig) :
    Faithful { m with signature := sig } := by
  intro address e he
  obtain ⟨entry, hentry, herase⟩ := Signature.erasureAt_eq_ok_iff.mp (hm address e he)
  exact Signature.erasureAt_eq_ok_iff.mpr ⟨entry, h.terms hentry, herase⟩

/-- A computation that has the same result on faithful machines over one signature, whatever they have kept, and
that leaves the machine faithful and the signature alone. -/
structure Transparent (compute : Machine → Option (α × Machine)) : Prop where
  fst_eq : ∀ {m m' : Machine}, m.Faithful → m'.Faithful → m.signature = m'.signature →
    (compute m).map Prod.fst = (compute m').map Prod.fst
  faithful : ∀ {m m' : Machine} {a : α}, m.Faithful → (a, m') ∈ compute m →
    m'.signature = m.signature ∧ m'.Faithful

theorem Transparent.map {compute : Machine → Option (α × Machine)} (h : Transparent compute) (f : α → β) :
    Transparent fun m => (compute m).map (Prod.map f id) := by
  constructor
  · intro m m' hm hm' hsig
    have heq := congrArg (Option.map f) (h.fst_eq hm hm' hsig)
    rw [Option.map_map, Option.map_map] at heq ⊢
    exact heq
  · intro m m' b hm hcompute
    obtain ⟨⟨a, m₁⟩, ha, hb⟩ := Option.map_eq_some_iff.mp hcompute
    cases hb
    exact h.faithful hm ha

/-- A computation that always has a result is transparent if it is so on all results. -/
theorem transparent_of_total {compute : Machine → α × Machine}
    (hfst : ∀ {m m' : Machine}, m.Faithful → m'.Faithful → m.signature = m'.signature →
      (compute m).1 = (compute m').1)
    (hkept : ∀ {m : Machine}, m.Faithful →
      (compute m).2.signature = m.signature ∧ (compute m).2.Faithful) :
    Transparent fun m => some (compute m) := by
  constructor
  · intro m m' hm hm' hsig
    rw [Option.map_some, Option.map_some, hfst hm hm' hsig]
  · intro m m' a hm hcompute
    have h := hkept hm
    rwa [Option.some.inj hcompute] at h

theorem Faithful.step_fst_eq (hm : m.Faithful) (hm' : m'.Faithful) (hsig : m.signature = m'.signature)
    (s : State) : (m.step s).1 = (m'.step s).1 := by
  rw [(hm.step s).1, (hm'.step s).1, hsig]

/-- Two faithful machines go through a run together. -/
theorem Faithful.run_fst_eq (hm : m.Faithful) (hm' : m'.Faithful) (hsig : m.signature = m'.signature)
    (fuel : Nat) (s : State) : (m.run fuel s).1 = (m'.run fuel s).1 := by
  induction fuel generalizing m m' s with
  | zero => rfl
  | succ fuel ih =>
    have heq := hm.step_fst_eq hm' hsig s
    obtain ⟨hsig₁, hm₁⟩ := (hm.step s).2
    obtain ⟨hsig₁', hm₁'⟩ := (hm'.step s).2
    rcases hstep : m.step s with ⟨r, m₁⟩
    rcases hstep' : m'.step s with ⟨r', m₁'⟩
    rw [hstep] at heq hsig₁ hm₁
    rw [hstep'] at heq hsig₁' hm₁'
    obtain rfl : r = r' := heq
    rcases r with e | _ | s₁
    · rw [run_succ_of_error hstep, run_succ_of_error hstep']
    · rw [run_succ_of_none hstep, run_succ_of_none hstep']
    · rw [run_succ_of_some hstep, run_succ_of_some hstep']
      exact ih hm₁ hm₁' (hsig₁.trans (hsig.trans hsig₁'.symm)) s₁

theorem Faithful.run_snd (hm : m.Faithful) (fuel : Nat) (s : State) :
    (m.run fuel s).2.signature = m.signature ∧ (m.run fuel s).2.Faithful := by
  induction fuel generalizing m s with
  | zero => exact ⟨rfl, hm⟩
  | succ fuel ih =>
    obtain ⟨hsig, hm'⟩ := (hm.step s).2
    rcases hstep : m.step s with ⟨e | _ | s', m'⟩
    all_goals rw [hstep] at hsig hm'
    · rw [run_succ_of_error hstep]
      exact ⟨hsig, hm'⟩
    · rw [run_succ_of_none hstep]
      exact ⟨hsig, hm'⟩
    · rw [run_succ_of_some hstep]
      obtain ⟨hsig', hfaithful⟩ := ih hm' s'
      exact ⟨hsig'.trans hsig, hfaithful⟩

theorem transparent_step (s : State) : Transparent fun m => some (m.step s) :=
  transparent_of_total (fun hm hm' hsig => hm.step_fst_eq hm' hsig s) (fun hm => (hm.step s).2)

theorem transparent_run (fuel : Nat) (s : State) : Transparent fun m => some (m.run fuel s) :=
  transparent_of_total (fun hm hm' hsig => hm.run_fst_eq hm' hsig fuel s) (fun hm => hm.run_snd fuel s)

/-- The result of a run without a bound is one that a bounded run has, on any of the machines. -/
theorem Faithful.mem_map_runToEnd (hm : m.Faithful) (hm' : m'.Faithful) (hsig : m.signature = m'.signature)
    (h : result ∈ (m.runToEnd s).map Prod.fst) : result ∈ (m'.runToEnd s).map Prod.fst := by
  obtain ⟨⟨_, m₁⟩, hend, rfl⟩ := Option.map_eq_some_iff.mp h
  obtain ⟨n, hrun, hended⟩ := runToEnd_eq_some_iff.mp hend
  have heq := hm.run_fst_eq hm' hsig n s
  rw [hrun] at heq
  refine Option.map_eq_some_iff.mpr ⟨m'.run n s, ?_, heq.symm⟩
  refine runToEnd_eq_some_iff.mpr ⟨n, rfl, ?_⟩
  intro s' hs'
  exact hended s' (heq.trans hs')

theorem transparent_runToEnd (s : State) : Transparent fun m => m.runToEnd s := by
  constructor
  · intro m m' hm hm' hsig
    refine Option.ext fun result => ?_
    exact ⟨hm.mem_map_runToEnd hm' hsig, hm'.mem_map_runToEnd hm hsig.symm⟩
  · intro m m' a hm hend
    obtain ⟨n, hrun, -⟩ := runToEnd_eq_some_iff.mp hend
    have hkept := hm.run_snd n s
    rwa [hrun] at hkept

theorem transparent_runWithin (fuel : Option Nat) (s : State) : Transparent fun m => m.runWithin fuel s := by
  cases fuel with
  | some fuel => exact transparent_run fuel s
  | none => exact transparent_runToEnd s

theorem transparent_perform (call : Call) : Transparent fun m => m.perform call := by
  cases call with
  | step s => exact (transparent_step s).map _
  | run fuel s => exact (transparent_runWithin fuel s).map _
  | runErased fuel e => exact (transparent_runWithin fuel (.initial e)).map _
  | evaluate fuel t => exact (transparent_runWithin fuel (.initial t.erase)).map _

/-! ## Sessions -/

theorem Session.faithful (h : m.Session) : m.Faithful := by
  induction h with
  | new sig => exact faithful_new sig
  | perform _ hcall ih => exact ((transparent_perform _).faithful ih hcall).2
  | addType address d k _ ih => exact ih.of_sub (.addType _ address d k)
  | addTerm address t T _ ih => exact ih.of_sub (.addTerm _ address t T)

/-- In every session, a call is answered as a machine would answer it that has kept nothing and has the
definitions of the moment.  The call adds no definition, and all that is kept after it are erasures of terms that
are defined. -/
theorem Session.cache_transparent (h : m.Session) (call : Call) :
    (m.perform call).map Prod.fst = ((Machine.new m.signature).perform call).map Prod.fst ∧
    ∀ answer m', (answer, m') ∈ m.perform call →
      m'.signature = m.signature ∧
      ∀ address e, m'.cache.get? address = some e →
        ∃ entry, m'.signature.terms.get? address = some entry ∧ e = entry.term.erase := by
  refine ⟨(transparent_perform call).fst_eq h.faithful (faithful_new _) rfl, ?_⟩
  intro answer m' hcall
  obtain ⟨hsig, hm'⟩ := (transparent_perform call).faithful h.faithful hcall
  refine ⟨hsig, ?_⟩
  intro address e he
  obtain ⟨entry, hentry, herase⟩ := Signature.erasureAt_eq_ok_iff.mp (hm' address e he)
  exact ⟨entry, hentry, herase.symm⟩

/-- A function is missing in a first run, which fails.  Then it is defined, a second run looks it up and is cut
short, and a third call finds it among what was kept. -/
theorem cache_transparent_after_failure :
    let address : Address := ⟨.replicate 32 0⟩
    let e := Erased.app (.ref address) .zero
    let m₀ := Machine.new .empty
    let t := Term.lam .byte (.var 0)
    let m₁ : Machine := { m₀ with signature := m₀.signature.addTerm address t (.arrow .byte .byte) }
    let m₂ : Machine := { m₁ with cache := Table.empty.insert address .identity }
    let cut : State := ⟨.identity, [], [.arg .zero []]⟩
    ((.ended (.error (.undefinedTerm address)), m₀) ∈ m₀.perform (.runErased none e) ∧
      (.ended (.ok (.exhausted cut)), m₂) ∈ m₁.perform (.runErased (some 2) e) ∧ m₂.Session) ∧
    (m₂.perform (.runErased none e)).map Prod.fst =
      ((new m₂.signature).perform (.runErased none e)).map Prod.fst ∧
    ∀ answer m', (answer, m') ∈ m₂.perform (.runErased none e) →
      m'.signature = m₂.signature ∧
      ∀ a e', m'.cache.get? a = some e' →
        ∃ entry, m'.signature.terms.get? a = some entry ∧ e' = entry.term.erase := by
  intro address e m₀ t m₁ m₂ cut
  have hfails : m₀.runToEnd (.initial e) = some (.error (.undefinedTerm address), m₀) :=
    runToEnd_eq_some_iff.mpr ⟨2, rfl, fun _ h => (nomatch h)⟩
  have hfirst : (.ended (.error (.undefinedTerm address)), m₀) ∈ m₀.perform (.runErased none e) :=
    Option.map_eq_some_iff.mpr ⟨_, hfails, rfl⟩
  have hsecond : (.ended (.ok (.exhausted cut)), m₂) ∈ m₁.perform (.runErased (some 2) e) := rfl
  have hsession : m₂.Session := .perform (.addTerm address _ _ (.perform (.new .empty) hfirst)) hsecond
  exact ⟨⟨hfirst, hsecond, hsession⟩, hsession.cache_transparent (.runErased none e)⟩

end Machine

end AddressedF
