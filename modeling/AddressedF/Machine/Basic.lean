import AddressedF.Machine.State
import AddressedF.Signature

/-!
# The Machine

Evaluation over the definitions of a signature.

## Main Definitions

* `Machine`: a signature, and the erasures of its terms that were needed so far
* `Machine.step`: one transition
* `Machine.run`: transitions until none applies or the fuel is spent
* `Machine.runToEnd`: transitions until none applies, however many
* `Machine.evaluate`: the run of a closed term, with fuel or without a bound

## Design Notes

A reference is replaced by the erasure of the term it names, which is computed on first use and then kept.
What was kept outlives a run, whatever its end.

A run without a bound is a loop that may go on forever, so it is defined as the least solution of its equation.
It has no result exactly if it has no end.  A bound may be any natural number.  A budget that is kept in a machine
word is one of these, and then a run that needs more transitions than the largest word is cut short by every
budget; it comes to its end only without a bound.
-/

namespace AddressedF

/-- Why a transition fails. -/
inductive MachineError where
  /-- A reference to a term that is not known. -/
  | undefinedTerm (address : Address)
  deriving DecidableEq

/-- The message of an evaluation error. -/
def MachineError.message : MachineError → String
  | undefinedTerm a => s!"undefined hash during evaluation: #{a.hex}"

/-- How a run ends. -/
inductive Outcome where
  /-- No transition applies. -/
  | done (state : State)
  /-- The fuel is spent. -/
  | exhausted (state : State)

/-- The last state of a run. -/
def Outcome.state : Outcome → State
  | done s | exhausted s => s

/-- Whether a run came to its end. -/
def Outcome.isDone : Outcome → Bool
  | done _ => true
  | exhausted _ => false

/-- A signature, and the erasures of its terms that were needed so far. -/
structure Machine where
  signature : Signature
  cache : Table Address Erased

namespace Machine

/-- A machine that has not run yet. -/
def new (sig : Signature) : Machine := ⟨sig, .empty⟩

/-- The erasure of the term at an address, which is kept from then on. -/
def fetch (m : Machine) (a : Address) : Except MachineError Erased × Machine :=
  match m.cache.get? a with
  | some e => (.ok e, m)
  | none =>
    match m.signature.terms.get? a with
    | some entry => (.ok entry.term.erase, { m with cache := m.cache.insert a entry.term.erase })
    | none => (.error (.undefinedTerm a), m)

/-- One transition, or nothing if the state is final or stuck. -/
def step (m : Machine) (s : State) : Except MachineError (Option State) × Machine :=
  match s.term with
  | .ref a =>
    let (found, m) := m.fetch a
    (found.map fun e => some ⟨e, [], s.stack⟩, m)
  | _ => (.ok s.next?, m)

/-- Transitions until none applies, at most `fuel` of them. -/
def run (m : Machine) : (fuel : Nat) → State → Except MachineError Outcome × Machine
  | 0, s => (.ok (.exhausted s), m)
  | fuel + 1, s =>
    match m.step s with
    | (.ok (some s), m) => m.run fuel s
    | (.ok none, m) => (.ok (.done s), m)
    | (.error e, m) => (.error e, m)

theorem run_zero (m : Machine) (s : State) : m.run 0 s = (.ok (.exhausted s), m) := rfl

theorem run_succ_of_some {m m' : Machine} {s s' : State} (h : m.step s = (.ok (some s'), m'))
    (fuel : Nat) : m.run (fuel + 1) s = m'.run fuel s' := by
  rw [run, h]

theorem run_succ_of_none {m m' : Machine} {s : State} (h : m.step s = (.ok none, m')) (fuel : Nat) :
    m.run (fuel + 1) s = (.ok (.done s), m') := by
  rw [run, h]

theorem run_succ_of_error {m m' : Machine} {s : State} {e : MachineError}
    (h : m.step s = (.error e, m')) (fuel : Nat) : m.run (fuel + 1) s = (.error e, m') := by
  rw [run, h]

/-- Transitions until none applies, without a bound on them.  There is no result if one always applies. -/
def runToEnd (m : Machine) (s : State) : Option (Except MachineError Outcome × Machine) :=
  match m.step s with
  -- by `apply`, since a call that is written as a term would keep its place in the file in the definition
  | (.ok (some s'), m') => by
    apply runToEnd
    · exact m'
    · exact s'
  | (.ok none, m) => some (.ok (.done s), m)
  | (.error e, m) => some (.error e, m)
partial_fixpoint

theorem runToEnd_of_some {m m' : Machine} {s s' : State} (h : m.step s = (.ok (some s'), m')) :
    m.runToEnd s = m'.runToEnd s' := by
  rw [runToEnd, h]

theorem runToEnd_of_none {m m' : Machine} {s : State} (h : m.step s = (.ok none, m')) :
    m.runToEnd s = some (.ok (.done s), m') := by
  rw [runToEnd, h]

theorem runToEnd_of_error {m m' : Machine} {s : State} {e : MachineError} (h : m.step s = (.error e, m')) :
    m.runToEnd s = some (.error e, m') := by
  rw [runToEnd, h]

/-- Transitions until none applies, with a bound on them or without one. -/
def runWithin (m : Machine) (fuel : Option Nat) (s : State) : Option (Except MachineError Outcome × Machine) :=
  match fuel with
  | some fuel => some (m.run fuel s)
  | none => m.runToEnd s

/-- Evaluates a closed term of the core calculus. -/
def evaluate (m : Machine) (fuel : Option Nat) (t : Term) : Option (Except MachineError Outcome × Machine) :=
  m.runWithin fuel (.initial t.erase)

end Machine

end AddressedF
