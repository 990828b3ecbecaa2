import AddressedF.Proofs.Transition

/-!
# Fuel

The fuel of a run is the number of transitions that it may make, and it has no other part in the run.  So a run
that is cut short can be taken up again where it was left, and a run that comes to its end comes to the same end
whatever fuel is left over.

## Main Definitions

* `Machine.ReachesIn`: so many transitions lead from one machine and state to others
* `Machine.HaltsIn`: so many transitions are made, and then none applies
* `Machine.resume`: goes on with a run that was cut short

## Main Results

* `Machine.run_cases`: the three ways in which a run may end
* `Machine.run_add`: fuel may be given in two parts
* `Machine.runToEnd_eq_some_iff`: a run without a bound has the result of a run with enough fuel
* `Machine.fuel_exact`: what a run returns, told by the number of its transitions
* `Machine.HaltsIn.run_of_lt`, `Machine.HaltsIn.exists_run_of_le`: exactly so much fuel is needed to halt
* `Machine.Faithful.exists_haltsIn`: the machine halts where its definitions say that it does

## Design Notes

Transitions are counted on the machine itself, so that what it keeps is part of every statement.  Nothing is
asked of it: what was kept need not even be right.  It has to be only for the machine to make the transitions
that its definitions determine.
-/

namespace AddressedF.Machine

/-- So many single transitions lead from the first machine and state to the second ones. -/
inductive ReachesIn : Machine → Nat → State → Machine → State → Prop where
  | zero (m : Machine) (s : State) : ReachesIn m 0 s m s
  | succ {m m' m'' : Machine} {k : Nat} {s s' s'' : State} :
    m.step s = (.ok (some s'), m') → ReachesIn m' k s' m'' s'' → ReachesIn m (k + 1) s m'' s''

/-- So many transitions are made, and then none applies. -/
def HaltsIn (m : Machine) (n : Nat) (s : State) (m' : Machine) (final : State) : Prop :=
  ∃ m₁, m.ReachesIn n s m₁ final ∧ m₁.step final = (.ok none, m')

/-- Goes on with a run whose fuel was spent, and leaves a run alone that came to its end. -/
def resume (fuel : Nat) : Except MachineError Outcome × Machine → Except MachineError Outcome × Machine
  | (.ok (.exhausted s), m) => m.run fuel s
  | ended => ended

theorem resume_exhausted (fuel : Nat) (s : State) (m : Machine) :
    resume fuel (.ok (.exhausted s), m) = m.run fuel s := rfl

theorem resume_done (fuel : Nat) (s : State) (m : Machine) :
    resume fuel (.ok (.done s), m) = (.ok (.done s), m) := rfl

theorem resume_error (fuel : Nat) (e : MachineError) (m : Machine) :
    resume fuel (.error e, m) = (.error e, m) := rfl

variable {m m' : Machine} {s s' final : State} {k n : Nat} {e : MachineError}

/-! ## Runs and their transitions -/

/-- A run makes its transitions first and then spends what is left of the fuel. -/
theorem ReachesIn.run_add (h : m.ReachesIn k s m' s') (fuel : Nat) : m.run (k + fuel) s = m'.run fuel s' := by
  induction h with
  | zero m s => rw [Nat.zero_add]
  | succ hstep _ ih => rw [Nat.add_right_comm, run_succ_of_some hstep, ih]

theorem ReachesIn.runToEnd_eq (h : m.ReachesIn k s m' s') : m.runToEnd s = m'.runToEnd s' := by
  induction h with
  | zero m s => rfl
  | succ hstep _ ih => rw [runToEnd_of_some hstep, ih]

/-- A run spends its fuel, or with fuel left it comes to a state where no transition applies or where one
fails. -/
theorem run_cases (m : Machine) (n : Nat) (s : State) :
    (∃ m' s', m.ReachesIn n s m' s' ∧ m.run n s = (.ok (.exhausted s'), m')) ∨
    (∃ k < n, ∃ m₁ s₁ m', m.ReachesIn k s m₁ s₁ ∧ m₁.step s₁ = (.ok none, m') ∧
      m.run n s = (.ok (.done s₁), m')) ∨
    ∃ k < n, ∃ m₁ s₁ e m', m.ReachesIn k s m₁ s₁ ∧ m₁.step s₁ = (.error e, m') ∧
      m.run n s = (.error e, m') := by
  induction n generalizing m s with
  | zero => exact .inl ⟨m, s, .zero m s, rfl⟩
  | succ n ih =>
    rcases hstep : m.step s with ⟨e | _ | s', m'⟩
    · exact .inr (.inr ⟨0, n.succ_pos, m, s, e, m', .zero m s, hstep, run_succ_of_error hstep n⟩)
    · exact .inr (.inl ⟨0, n.succ_pos, m, s, m', .zero m s, hstep, run_succ_of_none hstep n⟩)
    · rw [run_succ_of_some hstep]
      rcases ih m' s' with ⟨m'', s'', h, hrun⟩ | ⟨k, hk, m₁, s₁, m'', h, hlast, hrun⟩ |
        ⟨k, hk, m₁, s₁, e, m'', h, hlast, hrun⟩
      · exact .inl ⟨m'', s'', .succ hstep h, hrun⟩
      · exact .inr (.inl ⟨k + 1, Nat.succ_lt_succ hk, m₁, s₁, m'', .succ hstep h, hlast, hrun⟩)
      · exact .inr (.inr ⟨k + 1, Nat.succ_lt_succ hk, m₁, s₁, e, m'', .succ hstep h, hlast, hrun⟩)

theorem run_eq_exhausted_iff : m.run n s = (.ok (.exhausted s'), m') ↔ m.ReachesIn n s m' s' := by
  constructor
  · intro hrun
    rcases m.run_cases n s with ⟨_, _, h, hrun'⟩ | ⟨_, _, _, _, _, _, _, hrun'⟩ |
      ⟨_, _, _, _, _, _, _, _, hrun'⟩
    all_goals cases hrun.symm.trans hrun'
    exact h
  · intro h
    exact h.run_add 0

theorem run_eq_done_iff :
    m.run n s = (.ok (.done s'), m') ↔
      ∃ k < n, ∃ m₁, m.ReachesIn k s m₁ s' ∧ m₁.step s' = (.ok none, m') := by
  constructor
  · intro hrun
    rcases m.run_cases n s with ⟨_, _, _, hrun'⟩ | ⟨k, hk, m₁, _, _, h, hlast, hrun'⟩ |
      ⟨_, _, _, _, _, _, _, _, hrun'⟩
    all_goals cases hrun.symm.trans hrun'
    exact ⟨k, hk, m₁, h, hlast⟩
  · rintro ⟨k, hk, m₁, h, hlast⟩
    obtain ⟨left, rfl⟩ := Nat.exists_eq_add_of_lt hk
    rw [Nat.add_assoc, h.run_add, run_succ_of_none hlast]

theorem run_eq_error_iff :
    m.run n s = (.error e, m') ↔
      ∃ k < n, ∃ m₁ s₁, m.ReachesIn k s m₁ s₁ ∧ m₁.step s₁ = (.error e, m') := by
  constructor
  · intro hrun
    rcases m.run_cases n s with ⟨_, _, _, hrun'⟩ | ⟨_, _, _, _, _, _, _, hrun'⟩ |
      ⟨k, hk, m₁, s₁, _, _, h, hlast, hrun'⟩
    all_goals cases hrun.symm.trans hrun'
    exact ⟨k, hk, m₁, s₁, h, hlast⟩
  · rintro ⟨k, hk, m₁, s₁, h, hlast⟩
    obtain ⟨left, rfl⟩ := Nat.exists_eq_add_of_lt hk
    rw [Nat.add_assoc, h.run_add, run_succ_of_error hlast]

/-! ## Fuel in two parts, fuel without end -/

/-- A run that was cut short is one run together with what makes it up. -/
theorem run_add (m : Machine) (n n' : Nat) (s : State) : m.run (n + n') s = resume n' (m.run n s) := by
  induction n generalizing m s with
  | zero => rw [Nat.zero_add, run_zero, resume_exhausted]
  | succ n ih =>
    rw [Nat.add_right_comm]
    rcases hstep : m.step s with ⟨e | _ | s', m'⟩
    · rw [run_succ_of_error hstep, run_succ_of_error hstep, resume_error]
    · rw [run_succ_of_none hstep, run_succ_of_none hstep, resume_done]
    · rw [run_succ_of_some hstep, run_succ_of_some hstep, ih]

/-- Without a bound a run has the result that it has with enough fuel. -/
theorem runToEnd_eq_some_iff {result : Except MachineError Outcome × Machine} :
    m.runToEnd s = some result ↔ ∃ n, m.run n s = result ∧ ∀ s', result.1 ≠ .ok (.exhausted s') := by
  constructor
  · -- by induction on the rounds of the loop; the machine changes from one round to the next
    refine runToEnd.partial_correctness
      (fun m s result => ∃ n, m.run n s = result ∧ ∀ s', result.1 ≠ .ok (.exhausted s')) ?_ m s result
    intro loop ih m s result h
    rcases hstep : m.step s with ⟨e | _ | s', m'⟩
    all_goals rw [hstep] at h
    · cases h
      exact ⟨1, run_succ_of_error hstep 0, fun _ h => (nomatch h)⟩
    · cases h
      exact ⟨1, run_succ_of_none hstep 0, fun _ h => (nomatch h)⟩
    · obtain ⟨n, hrun, hended⟩ := ih m' s' result h
      exact ⟨n + 1, (run_succ_of_some hstep n).trans hrun, hended⟩
  · rintro ⟨n, rfl, hended⟩
    rcases m.run_cases n s with ⟨m', s', -, hrun⟩ | ⟨k, -, m₁, s₁, m', h, hlast, hrun⟩ |
      ⟨k, -, m₁, s₁, e, m', h, hlast, hrun⟩
    · exact absurd (congrArg Prod.fst hrun) (hended s')
    · rw [h.runToEnd_eq, runToEnd_of_none hlast, hrun]
    · rw [h.runToEnd_eq, runToEnd_of_error hlast, hrun]

/-! ## Runs that halt -/

/-- More fuel than transitions is enough to halt. -/
theorem HaltsIn.run_of_lt (h : m.HaltsIn n s m' final) {fuel : Nat} (hlt : n < fuel) :
    m.run fuel s = (.ok (.done final), m') := by
  obtain ⟨m₁, hreach, hlast⟩ := h
  exact run_eq_done_iff.mpr ⟨n, hlt, m₁, hreach, hlast⟩

/-- With less fuel the run is cut short. -/
theorem ReachesIn.exists_run_of_le (h : m.ReachesIn n s m' s') {fuel : Nat} (hle : fuel ≤ n) :
    ∃ cut m'', m.run fuel s = (.ok (.exhausted cut), m'') := by
  induction h generalizing fuel with
  | zero m s =>
    obtain rfl := Nat.le_zero.mp hle
    exact ⟨s, m, rfl⟩
  | succ hstep _ ih =>
    cases fuel with
    | zero => exact ⟨_, _, rfl⟩
    | succ fuel =>
      rw [run_succ_of_some hstep]
      exact ih (Nat.le_of_succ_le_succ hle)

theorem HaltsIn.exists_run_of_le (h : m.HaltsIn n s m' final) {fuel : Nat} (hle : fuel ≤ n) :
    ∃ cut m'', m.run fuel s = (.ok (.exhausted cut), m'') := by
  obtain ⟨m₁, hreach, -⟩ := h
  exact hreach.exists_run_of_le hle

theorem HaltsIn.runToEnd_eq (h : m.HaltsIn n s m' final) : m.runToEnd s = some (.ok (.done final), m') := by
  obtain ⟨m₁, hreach, hlast⟩ := h
  rw [hreach.runToEnd_eq, runToEnd_of_none hlast]

/-- A faithful machine comes to every state that its definitions lead to. -/
theorem Faithful.exists_reachesIn (hm : m.Faithful) (h : m.signature.Steps s s') :
    ∃ n m', m.ReachesIn n s m' s' ∧ m'.signature = m.signature ∧ m'.Faithful := by
  -- along the transitions; each of them may leave one more erasure in the machine
  generalize hsig : m.signature = sig at h
  induction h using Relation.ReflTransGen.head_induction_on generalizing m with
  | refl => exact ⟨0, m, .zero m s', hsig, hm⟩
  | @head s s₁ hstep _ ih =>
    obtain ⟨hnext, hsame, hm₁⟩ := hm.step s
    rcases hrun : m.step s with ⟨r, m₁⟩
    rw [hrun] at hnext hsame hm₁
    simp only at hnext hsame hm₁
    rw [hsig, hstep] at hnext
    rw [hnext] at hrun
    obtain ⟨n, m', hreach, hrest⟩ := ih hm₁ (hsame.trans hsig)
    exact ⟨n + 1, m', .succ hrun hreach, hrest⟩

/-- A faithful machine halts where no transition of its definitions applies. -/
theorem Faithful.exists_haltsIn (hm : m.Faithful) (hfinal : m.signature.Steps s final)
    (hhalt : m.signature.next final = .ok none) : ∃ n m', m.HaltsIn n s m' final := by
  obtain ⟨n, m₁, hreach, hsig, hm₁⟩ := hm.exists_reachesIn hfinal
  obtain ⟨hnext, -⟩ := hm₁.step final
  rw [hsig, hhalt] at hnext
  exact ⟨n, (m₁.step final).2, m₁, hreach, Prod.ext hnext rfl⟩

/-- What a run returns is told by its transitions alone.  It halts in a state if fewer transitions than it has
fuel lead there and no further one applies; it is cut short in the state that so many transitions lead to as it
has fuel; and it fails if a transition fails before that.  So a run that halts does so with any more fuel, and
without a bound; and a run that is cut short and then taken up again, on the machine as it was left, is one run
with all the fuel. -/
theorem fuel_exact (m : Machine) (s : State) :
    (∀ n s' m', m.run n s = (.ok (.done s'), m') ↔
      ∃ k < n, ∃ m₁, m.ReachesIn k s m₁ s' ∧ m₁.step s' = (.ok none, m')) ∧
    (∀ n s' m', m.run n s = (.ok (.exhausted s'), m') ↔ m.ReachesIn n s m' s') ∧
    (∀ n e m', m.run n s = (.error e, m') ↔
      ∃ k < n, ∃ m₁ s₁, m.ReachesIn k s m₁ s₁ ∧ m₁.step s₁ = (.error e, m')) ∧
    (∀ n s' m', m.run n s = (.ok (.done s'), m') →
      (∀ n', n ≤ n' → m.run n' s = (.ok (.done s'), m')) ∧ m.runToEnd s = .some (.ok (.done s'), m')) ∧
    ∀ n n', resume n' (m.run n s) = m.run (n + n') s := by
  refine ⟨fun _ _ _ => run_eq_done_iff, fun _ _ _ => run_eq_exhausted_iff, fun _ _ _ => run_eq_error_iff,
    ?_, fun n n' => (m.run_add n n' s).symm⟩
  intro n s' m' hrun
  constructor
  · intro n' hle
    obtain ⟨more, rfl⟩ := Nat.exists_eq_add_of_le hle
    rw [run_add, hrun, resume_done]
  · exact runToEnd_eq_some_iff.mpr ⟨n, hrun, fun _ h => (nomatch h)⟩

/-- Six transitions apply the stored identity to zero.  With fuel for six the run is cut short in the state where
it halts, and with fuel for seven it halts there.  The reference is looked up in the first part of the run and
its erasure is kept for the second one. -/
theorem fuel_exact_at_bound :
    let address : Address := ⟨.replicate 32 0⟩
    let sig := Signature.empty.addTerm address (.lam .byte (.var 0)) (.arrow .byte .byte)
    let s := State.initial (.app (.ref address) .zero)
    let final : State := ⟨.byte 0, [], []⟩
    let kept : Machine := ⟨sig, Table.empty.insert address .identity⟩
    (new sig).run 7 s = (.ok (.done final), kept) ∧
    (∃ k < 7, ∃ m₁, (new sig).ReachesIn k s m₁ final ∧ m₁.step final = (.ok none, kept)) ∧
    (new sig).run 6 s = (.ok (.exhausted final), kept) ∧ (new sig).ReachesIn 6 s kept final ∧
    (∀ n', 7 ≤ n' → (new sig).run n' s = (.ok (.done final), kept)) ∧
    (new sig).runToEnd s = .some (.ok (.done final), kept) ∧
    resume 5 ((new sig).run 2 s) = (new sig).run 7 s := by
  intro address sig s final kept
  obtain ⟨hdone, hexhausted, -, hmore, hresume⟩ := fuel_exact (new sig) s
  have hseven : (new sig).run 7 s = (.ok (.done final), kept) := rfl
  have hsix : (new sig).run 6 s = (.ok (.exhausted final), kept) := rfl
  obtain ⟨hlarger, hend⟩ := hmore 7 final kept hseven
  exact ⟨hseven, (hdone 7 final kept).mp hseven, hsix, (hexhausted 6 final kept).mp hsix, hlarger, hend,
    hresume 2 5⟩

end AddressedF.Machine
