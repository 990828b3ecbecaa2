/-!
# Kinds

Kinds classify types: `*` is the kind of types that terms inhabit, and an arrow is the kind of a type
constructor.

## Main Definitions

* `Kind`: kinds
* `Kind.ofArguments`: the kind of a constructor with given arguments and result
* `Kind.spine`: arguments and result of a kind
* `Kind.render`: the written form, arrows nesting to the right
-/

namespace AddressedF

/-- Encloses a text in parentheses if asked to. -/
def enclose (b : Bool) (text : String) : String :=
  if b then "(" ++ text ++ ")" else text

/-- The classification of types. -/
inductive Kind where
  /-- The kind of inhabited types. -/
  | star
  /-- The kind of constructors from types of kind `domain` to types of kind `codomain`. -/
  | arrow (domain codomain : Kind)
  deriving DecidableEq

namespace Kind

/-- The kind with the given arguments, in order, and the given result. -/
def ofArguments (arguments : List Kind) (result : Kind) : Kind :=
  arguments.foldr arrow result

theorem ofArguments_cons (k : Kind) (ks : List Kind) (result : Kind) :
    ofArguments (k :: ks) result = arrow k (ofArguments ks result) := rfl

/-- A list of kinds as one kind, the last of them being the result; the empty list stands for `*`. -/
def ofList : List Kind → Kind
  | [] => star
  | [k] => k
  | k :: ks => arrow k (ofList ks)

/-- The arguments of a kind, in order, and its result. -/
def spine : Kind → List Kind × Kind
  | star => ([], star)
  | arrow k rest => (k :: rest.spine.1, rest.spine.2)

/-- Every kind is made of its spine. -/
theorem ofArguments_spine (k : Kind) : ofArguments k.spine.1 k.spine.2 = k := by
  induction k with
  | star => rfl
  | arrow d c _ ih => simp [spine, ofArguments_cons, ih]

/-- The result of a kind is always `*`. -/
theorem spine_result (k : Kind) : k.spine.2 = star := by
  induction k with
  | star => rfl
  | arrow d c _ ih => simpa [spine] using ih

/-- The number of arguments of a kind. -/
def arity : Kind → Nat
  | star => 0
  | arrow _ rest => rest.arity + 1

theorem length_spine (k : Kind) : k.spine.1.length = k.arity := by
  induction k with
  | star => rfl
  | arrow d c _ ih => simp [spine, arity, ih]

/-- Whether a kind is the kind of a constructor. -/
def isArrow : Kind → Bool
  | star => false
  | arrow _ _ => true

/-- The written form: arrows nest to the right, and an argument that is an arrow is parenthesised. -/
def render : Kind → String
  | star => "*"
  | arrow domain codomain => enclose domain.isArrow domain.render ++ " -> " ++ codomain.render

/-- The written form where a binder wants a single word. -/
def renderAtom (k : Kind) : String :=
  enclose k.isArrow k.render

end Kind

end AddressedF
