import AddressedF.Term.Erased

/-!
# Machine States

What the machine works on: an erased term, the values of its variables, and a stack of what is left to do
with the result.

## Main Definitions

* `Value`: bytes, the successor function, and closures
* `Frame`: one thing left to do with a value
* `State`: a state of the machine
* `State.next?`: the transitions that need no stored definition

## Design Notes

A value that comes out of an environment is turned back into a term with an environment of its own, so every
state has the same shape.  Evaluation is call by value: the function first, then the argument, then the body
with the argument in front of the environment that the function was closed in.
-/

namespace AddressedF

/-- What a variable may stand for. -/
inductive Value where
  | byte (value : UInt8)
  /-- The successor function on bytes. -/
  | succ
  /-- A function body and the values of its free variables. -/
  | closure (body : Erased) (env : List Value)

namespace Value

/-- The term that stands for a value. -/
def term : Value → Erased
  | byte b => .byte b
  | succ => .succ
  | closure body _ => .lam body

/-- The environment of the term that stands for a value. -/
def env : Value → List Value
  | byte _ | succ => []
  | closure _ env => env

end Value

/-- What is left to do with the value now being computed. -/
inductive Frame where
  /-- The value is a function, to be applied to this argument. -/
  | arg (argument : Erased) (env : List Value)
  /-- The value is an argument, to be bound in this function body. -/
  | body (body : Erased) (env : List Value)
  /-- The value is a byte, to be increased. -/
  | succ

/-- A state of the machine. -/
structure State where
  term : Erased
  env : List Value
  /-- What is left to do, the next thing first. -/
  stack : List Frame

namespace State

/-- The state in which the evaluation of a closed term starts. -/
def initial (term : Erased) : State := ⟨term, [], []⟩

/-- The byte that a finished evaluation has produced. -/
def value? : State → Option UInt8
  | ⟨.byte b, _, []⟩ => some b
  | _ => none

/-- The transition out of a state whose term is no reference, if one applies.  The successor of the last byte
is zero. -/
def next? : State → Option State
  | ⟨.var i, env, k⟩ => (env[i]?).map fun v => ⟨v.term, v.env, k⟩
  | ⟨.zero, _, k⟩ => some ⟨.byte 0, [], k⟩
  | ⟨.app f a, env, k⟩ => some ⟨f, env, .arg a env :: k⟩
  | ⟨.succ, _, .arg a env :: k⟩ => some ⟨a, env, .succ :: k⟩
  | ⟨.succ, _, .body e env :: k⟩ => some ⟨e, .succ :: env, k⟩
  | ⟨.byte b, _, .succ :: k⟩ => some ⟨.byte (b + 1), [], k⟩
  | ⟨.byte b, _, .body e env :: k⟩ => some ⟨e, .byte b :: env, k⟩
  | ⟨.lam e, env, .arg a env' :: k⟩ => some ⟨a, env', .body e env :: k⟩
  | ⟨.lam e, env, .body e' env' :: k⟩ => some ⟨e', .closure e env :: env', k⟩
  | _ => none

end State

end AddressedF
