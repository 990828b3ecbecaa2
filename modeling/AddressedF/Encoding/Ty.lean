import AddressedF.Encoding.Kind
import AddressedF.Ty.Definition

/-!
# The Encoding of Types and Type Definitions

A type is a constant with its number, a reference with its address, an application, a quantifier with its
kind, or a variable in a byte of its own.  A type definition is the number of its parameters, their kinds,
and its body.

## Main Definitions

* `Ty.encode`, `TypeDef.encode`: the bytes of a type and of a type definition
* `Ty.read`, `TypeDef.read`: reading from the front of some bytes
* `Ty.decode`, `TypeDef.decode`: reading all of the bytes
-/

namespace AddressedF

/-- The number of a type constant. -/
def TyCon.code : TyCon → UInt8
  | arrow => 0
  | byte => 1

namespace Ty

/-- The bytes of a type.  Of several variables that are too large, the leftmost is reported. -/
def encode : Ty → Except EncodeError (List UInt8)
  | con c => .ok [0, c.code]
  | ref a => .ok (1 :: a.toList)
  | app f a => do
    let f ← f.encode
    let a ← a.encode
    return 2 :: f ++ a
  | all k body => do
    let body ← body.encode
    return 3 :: k.encode ++ body
  | var i =>
    if i ≤ maxTypeIndex then .ok [UInt8.ofNat (firstTypeVar + i)] else .error (.typeIndexTooLarge i)

/-- Reads a type from the front of `input`. -/
def read (input : List UInt8) : Except DecodeError (Parsed Ty input) :=
  match input with
  | [] => .error (.unexpectedEnd (.tag .type))
  | tag :: rest =>
    match tag with
    | 0 =>
      match rest with
      | [] => .error (.unexpectedEnd (.constant .type))
      | 0 :: rest => .ok ((Parsed.single (con .arrow) 0 rest).afterByte 0)
      | 1 :: rest => .ok ((Parsed.single (con .byte) 1 rest).afterByte 0)
      | byte :: _ => .error (.invalidConstant .type byte)
    | 1 => do
      let address ← Address.read rest
      return (address.map ref).afterByte 1
    | 2 => do
      let f ← read rest
      let a ← read f.rest
      return ((f.after a).map (app f.value)).afterByte 2
    | 3 => do
      let kind ← Kind.read rest
      let body ← read kind.rest
      return ((kind.after body).map (all kind.value)).afterByte 3
    | tag => .ok (Parsed.single (var (tag.toNat - firstTypeVar)) tag rest)
termination_by input.length
decreasing_by
  · simp only [List.length_cons]; omega
  · have := f.shorter
    simp only [List.length_cons]; omega
  · have := kind.shorter
    simp only [List.length_cons]; omega

/-- Reads a type that is all of `input`. -/
def decode (input : List UInt8) : Except DecodeError Ty := do
  (← read input).finish .type

end Ty

namespace TypeDef

/-- The bytes of a type definition.  The number of parameters is looked at before the body. -/
def encode (d : TypeDef) : Except EncodeError (List UInt8) :=
  if d.params.length ≤ maxParams then do
    let body ← d.body.encode
    return UInt8.ofNat d.params.length :: d.params.flatMap Kind.encode ++ body
  else .error (.tooManyParams d.params.length)

/-- Reads `count` parameters and then a body. -/
def readBody (count : Nat) (input : List UInt8) : Except DecodeError (Parsed TypeDef input) :=
  match count with
  | 0 => do
    let body ← Ty.read input
    return body.map (⟨[], ·⟩)
  | count + 1 => do
    let kind ← Kind.read input
    let rest ← readBody count kind.rest
    return (kind.after rest).map fun d => ⟨kind.value :: d.params, d.body⟩

/-- Reads a type definition from the front of `input`. -/
def read : (input : List UInt8) → Except DecodeError (Parsed TypeDef input)
  | [] => .error (.unexpectedEnd (.tag .typeDef))
  | count :: rest => do
    let d ← readBody count.toNat rest
    return d.afterByte count

/-- Reads a type definition that is all of `input`. -/
def decode (input : List UInt8) : Except DecodeError TypeDef := do
  (← read input).finish .typeDef

end TypeDef

end AddressedF
