import AddressedF.Encoding.Basic
import AddressedF.Kind

/-!
# The Encoding of Kinds

The kind `*` is a constant, written with its tag `0` and its number `0`; an arrow is the tag `1`, the domain
and the codomain.

## Main Definitions

* `Kind.encode`: the bytes of a kind
* `Kind.read`: reads a kind from the front of some bytes
* `Kind.decode`: reads a kind that is all of the bytes
-/

namespace AddressedF

namespace Kind

/-- The bytes of a kind. -/
def encode : Kind → List UInt8
  | star => [0, 0]
  | arrow domain codomain => 1 :: domain.encode ++ codomain.encode

/-- Reads a kind from the front of `input`. -/
def read (input : List UInt8) : Except DecodeError (Parsed Kind input) :=
  match input with
  | [] => .error (.unexpectedEnd (.tag .kind))
  | tag :: rest =>
    match tag with
    | 0 =>
      match rest with
      | [] => .error (.unexpectedEnd (.constant .kind))
      | 0 :: rest => .ok ((Parsed.single star 0 rest).afterByte 0)
      | byte :: _ => .error (.invalidConstant .kind byte)
    | 1 => do
      let domain ← read rest
      let codomain ← read domain.rest
      return ((domain.after codomain).map (arrow domain.value)).afterByte 1
    | tag => .error (.invalidTag tag)
termination_by input.length
decreasing_by
  · simp only [List.length_cons]; omega
  · have := domain.shorter
    simp only [List.length_cons]; omega

/-- Reads a kind that is all of `input`. -/
def decode (input : List UInt8) : Except DecodeError Kind := do
  (← read input).finish .kind

end Kind

end AddressedF
