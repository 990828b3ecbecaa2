/-!
# Failing Computations on a State

Computations that change a state and may fail, where a failure keeps the state as it was left.

## Main Definitions

* `Stateful`: such computations
* `Stateful.run_bind` and its companions: what each step does to result and state

## Design Notes

A computation is seen through `run`, which maps a state to a result and a new state.  Proofs about
computations rewrite with the equations below and do not look into the monad.
-/

namespace AddressedF

/-- A computation on a state `σ` that gives a value `α` or an error `ε`, and a new state in both cases. -/
abbrev Stateful (ε σ α : Type) := ExceptT ε (StateM σ) α

namespace Stateful

variable {ε σ α β : Type}

theorem run_pure (a : α) (s : σ) : (pure a : Stateful ε σ α).run s = (.ok a, s) := rfl

theorem run_throw (e : ε) (s : σ) : (throw e : Stateful ε σ α).run s = (.error e, s) := rfl

theorem run_bind (x : Stateful ε σ α) (f : α → Stateful ε σ β) (s : σ) :
    (x >>= f).run s =
      match x.run s with
      | (.ok a, s') => (f a).run s'
      | (.error e, s') => (.error e, s') := by
  simp only [ExceptT.run, bind, ExceptT.bind, ExceptT.mk, StateT.bind, ExceptT.bindCont]
  cases x s with
  | mk result s' => cases result <;> rfl

theorem run_map (x : Stateful ε σ α) (f : α → β) (s : σ) :
    (f <$> x).run s = ((x.run s).1.map f, (x.run s).2) := by
  rw [map_eq_pure_bind, run_bind]
  cases x.run s with
  | mk result s' => cases result <;> rfl

/-- The state. -/
def get : Stateful ε σ σ := fun s => (.ok s, s)

/-- Changes the state. -/
def modify (f : σ → σ) : Stateful ε σ Unit := fun s => (.ok (), f s)

/-- A step that does not look at the state. -/
def lift (x : Except ε α) : Stateful ε σ α := fun s => (x, s)

/-- The result of a computation, whether it fails or not. -/
def attempt (x : Stateful ε σ α) : Stateful ε σ (Except ε α) := fun s => (.ok (x.run s).1, (x.run s).2)

theorem run_get (s : σ) : (get : Stateful ε σ σ).run s = (.ok s, s) := rfl

theorem run_modify (f : σ → σ) (s : σ) : (modify f : Stateful ε σ Unit).run s = (.ok (), f s) := rfl

theorem run_lift (x : Except ε α) (s : σ) : (lift x : Stateful ε σ α).run s = (x, s) := rfl

theorem run_attempt (x : Stateful ε σ α) (s : σ) :
    (attempt x).run s = (.ok (x.run s).1, (x.run s).2) := rfl

end Stateful

end AddressedF
