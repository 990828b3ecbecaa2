import AddressedF.Address

/-!
# Bytes and Their Readers

What the encodings of kinds, types, type definitions and terms have in common.

## Main Definitions

* `EncodeError`: why a value has no encoding
* `DecodeError`: why bytes are no encoding
* `Parsed`: a value read from the front of some bytes
* `Parsed.finish`: accepts a value only if no bytes follow it

## Design Notes

A value starts with a tag byte.  Variables share the tag's byte: the tags of a grammar come first, and
variable `i` is the byte `i` places after the last of them.  A reader returns what it has read together with
the bytes that follow, and a proof that it has read something; that proof is why reading ends.
-/

namespace AddressedF

/-- Why a value has no encoding. -/
inductive EncodeError where
  /-- A type variable does not fit into a byte. -/
  | typeIndexTooLarge (index : Nat)
  /-- A term variable does not fit into a byte. -/
  | termIndexTooLarge (index : Nat)
  /-- The number of parameters of a type definition does not fit into a byte. -/
  | tooManyParams (count : Nat)
  deriving DecidableEq

/-- The byte of type variable zero. -/
def firstTypeVar : Nat := 4

/-- The byte of term variable zero. -/
def firstTermVar : Nat := 8

/-- The largest type variable with an encoding. -/
def maxTypeIndex : Nat := 255 - firstTypeVar

/-- The largest term variable with an encoding. -/
def maxTermIndex : Nat := 255 - firstTermVar

/-- The largest number of parameters with an encoding. -/
def maxParams : Nat := 255

/-- The message of an encoding error. -/
def EncodeError.message : EncodeError → String
  | typeIndexTooLarge index => s!"cannot serialize tvar {index}, too big ({maxTypeIndex})"
  | termIndexTooLarge index => s!"cannot serialize var {index}, too big ({maxTermIndex})"
  | tooManyParams count => s!"type definition has too many parameters: {count}"

/-- The four encoded grammars. -/
inductive Grammar where
  | kind
  | type
  | typeDef
  | term
  deriving DecidableEq

/-- The name of a grammar in messages. -/
def Grammar.name : Grammar → String
  | kind => "kind"
  | type => "type"
  | typeDef => "type definition"
  | term => "term"

/-- What stands where the bytes end too early. -/
inductive Expected where
  /-- The tag of a kind, type or term, or the number of parameters of a type definition. -/
  | tag (grammar : Grammar)
  /-- The byte that tells the constants of a grammar apart. -/
  | constant (grammar : Grammar)
  /-- The bytes of an address. -/
  | address
  deriving DecidableEq

/-- The name of a missing part in messages. -/
def Expected.name : Expected → String
  | tag .typeDef => "type definition arity"
  | tag grammar => grammar.name ++ " tag"
  | constant grammar => grammar.name ++ " constant"
  | address => "32 hash bytes"

/-- Why bytes are no encoding. -/
inductive DecodeError where
  /-- The bytes end inside a value. -/
  | unexpectedEnd (expected : Expected)
  /-- A byte that is the tag of no kind. -/
  | invalidTag (tag : UInt8)
  /-- A byte that is no constant of the grammar. -/
  | invalidConstant (grammar : Grammar) (byte : UInt8)
  /-- A value is followed by more bytes. -/
  | trailingBytes (grammar : Grammar) (count : Nat)
  deriving DecidableEq

/-- A byte as two upper-case hexadecimal digits. -/
def upperHex (b : UInt8) : String :=
  (String.ofList (hexOfBytes [b])).toUpper

/-- The message of a decoding error. -/
def DecodeError.message : DecodeError → String
  | unexpectedEnd expected => s!"unexpected EOF, expected {expected.name}"
  | invalidTag tag => s!"invalid tag 0x{upperHex tag} in kind"
  | invalidConstant grammar byte => s!"invalid constant byte {byte} in {grammar.name}"
  | trailingBytes grammar count =>
    s!"deserialization failure ({count} trailing bytes) in {grammar.name}"

/-- A value read from the front of `input`, and the bytes after it. -/
structure Parsed (α : Type) (input : List UInt8) where
  value : α
  rest : List UInt8
  /-- At least one byte was read. -/
  shorter : rest.length < input.length

namespace Parsed

variable {α β : Type} {input : List UInt8}

/-- Applies a function to the value. -/
def map (f : α → β) (p : Parsed α input) : Parsed β input :=
  ⟨f p.value, p.rest, p.shorter⟩

/-- A value that is a single byte. -/
def single (value : α) (b : UInt8) (rest : List UInt8) : Parsed α (b :: rest) :=
  ⟨value, rest, Nat.lt_succ_self _⟩

/-- A value read after a first byte. -/
def afterByte (b : UInt8) (p : Parsed α input) : Parsed α (b :: input) :=
  ⟨p.value, p.rest, by have := p.shorter; simp only [List.length_cons]; omega⟩

/-- A value read after another one. -/
def after (first : Parsed β input) (p : Parsed α first.rest) : Parsed α input :=
  ⟨p.value, p.rest, Nat.lt_trans p.shorter first.shorter⟩

/-- Accepts a value that no bytes follow. -/
def finish (grammar : Grammar) (p : Parsed α input) : Except DecodeError α :=
  if p.rest = [] then .ok p.value else .error (.trailingBytes grammar p.rest.length)

/-- The value and the bytes after it. -/
def toProd (p : Parsed α input) : α × List UInt8 :=
  (p.value, p.rest)

end Parsed

/-- Reads the bytes of an address. -/
def Address.read (input : List UInt8) : Except DecodeError (Parsed Address input) :=
  if h : 32 ≤ input.length then
    .ok ⟨⟨⟨(input.take 32).toArray, by simp [h]⟩⟩, input.drop 32, by simp only [List.length_drop]; omega⟩
  else .error (.unexpectedEnd .address)

end AddressedF
