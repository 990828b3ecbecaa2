import AddressedF.Encoding.Ty
import AddressedF.Term.Basic

/-!
# The Encoding of Terms

Tag `0` is reserved for constants, of which there are none.  The other tags are those of the constructors,
and a variable is a byte of its own.

## Main Definitions

* `Term.encode`: the bytes of a term
* `Term.read`: reads a term from the front of some bytes
* `Term.decode`: reads a term that is all of the bytes
-/

namespace AddressedF

namespace Term

/-- The bytes of a term.  Of several variables that are too large, the first in the order of the bytes is
reported. -/
def encode : Term → Except EncodeError (List UInt8)
  | ref a => .ok (1 :: a.toList)
  | lam t body => do
    let t ← t.encode
    let body ← body.encode
    return 2 :: t ++ body
  | app f a => do
    let f ← f.encode
    let a ← a.encode
    return 3 :: f ++ a
  | tlam k body => do
    let body ← body.encode
    return 4 :: k.encode ++ body
  | tapp f t => do
    let f ← f.encode
    let t ← t.encode
    return 5 :: f ++ t
  | pack a => .ok (6 :: a.toList)
  | unpack a => .ok (7 :: a.toList)
  | var i =>
    if i ≤ maxTermIndex then .ok [UInt8.ofNat (firstTermVar + i)] else .error (.termIndexTooLarge i)

/-- Reads a term from the front of `input`.  The reserved tag is reported with the byte after it, or zero if
there is none. -/
def read (input : List UInt8) : Except DecodeError (Parsed Term input) :=
  match input with
  | [] => .error (.unexpectedEnd (.tag .term))
  | tag :: rest =>
    match tag with
    | 0 => .error (.invalidConstant .term (rest.headD 0))
    | 1 => do
      let address ← Address.read rest
      return (address.map ref).afterByte 1
    | 2 => do
      let t ← Ty.read rest
      let body ← read t.rest
      return ((t.after body).map (lam t.value)).afterByte 2
    | 3 => do
      let f ← read rest
      let a ← read f.rest
      return ((f.after a).map (app f.value)).afterByte 3
    | 4 => do
      let kind ← Kind.read rest
      let body ← read kind.rest
      return ((kind.after body).map (tlam kind.value)).afterByte 4
    | 5 => do
      let f ← read rest
      let t ← Ty.read f.rest
      return ((f.after t).map (tapp f.value)).afterByte 5
    | 6 => do
      let address ← Address.read rest
      return (address.map pack).afterByte 6
    | 7 => do
      let address ← Address.read rest
      return (address.map unpack).afterByte 7
    | tag => .ok (Parsed.single (var (tag.toNat - firstTermVar)) tag rest)
termination_by input.length
decreasing_by
  · have := t.shorter
    simp only [List.length_cons]; omega
  · simp only [List.length_cons]; omega
  · have := f.shorter
    simp only [List.length_cons]; omega
  · have := kind.shorter
    simp only [List.length_cons]; omega
  · simp only [List.length_cons]; omega

/-- Reads a term that is all of `input`. -/
def decode (input : List UInt8) : Except DecodeError Term := do
  (← read input).finish .term

end Term

end AddressedF
