import AddressedF.Digest

/-!
# Addresses

A definition is named by the digest of its bytes.  Addresses are written in hexadecimal.

## Main Definitions

* `Address`: thirty-two bytes, ordered byte by byte
* `Address.ofContent`: the address of a byte string
* `Address.hex`, `Address.ofHex`: the written form and its reader
* `Address.verify`: checks that bytes belong to an address

## Design Notes

The written form has lower-case digits; the reader takes either case.  A text is measured in bytes of UTF-8
before any of its digits is looked at, so the length decides between the two errors of the reader.
-/

namespace AddressedF

/-- The lower-case hexadecimal digit of a number below sixteen. -/
def hexDigit (n : Nat) : Char :=
  if n < 10 then Char.ofNat (n + 48) else Char.ofNat (n + 87)

/-- The value of a hexadecimal digit of either case. -/
def hexValue? (c : Char) : Option Nat :=
  if '0' ≤ c ∧ c ≤ '9' then some (c.toNat - 48)
  else if 'a' ≤ c ∧ c ≤ 'f' then some (c.toNat - 87)
  else if 'A' ≤ c ∧ c ≤ 'F' then some (c.toNat - 55)
  else none

/-- Two digits for each byte, the high one first. -/
def hexOfBytes : List UInt8 → List Char
  | [] => []
  | b :: bytes => hexDigit (b.toNat / 16) :: hexDigit (b.toNat % 16) :: hexOfBytes bytes

/-- Reads pairs of digits; any other character, or an odd digit at the end, spoils the whole text. -/
def bytesOfHex? : List Char → Option (List UInt8)
  | [] => some []
  | [_] => none
  | high :: low :: rest => do
    let h ← hexValue? high
    let l ← hexValue? low
    let bytes ← bytesOfHex? rest
    return UInt8.ofNat (16 * h + l) :: bytes

theorem hexOfBytes_nil : hexOfBytes [] = [] := rfl

theorem hexOfBytes_cons (b : UInt8) (bytes : List UInt8) :
    hexOfBytes (b :: bytes) = hexDigit (b.toNat / 16) :: hexDigit (b.toNat % 16) :: hexOfBytes bytes :=
  rfl

theorem length_hexOfBytes (bytes : List UInt8) : (hexOfBytes bytes).length = 2 * bytes.length := by
  induction bytes with
  | nil => rfl
  | cons b bytes ih => simp only [hexOfBytes_cons, List.length_cons, ih]; omega

/-- The name of a byte string. -/
structure Address where
  bytes : Vector UInt8 32
  deriving DecidableEq

/-- Why a text or a byte string is no address. -/
inductive AddressError where
  /-- There are `length` bytes where thirty-two are wanted. -/
  | wrongLength (length : Nat)
  /-- The text has the right length, but not only hexadecimal digits. -/
  | notHex (text : String)
  deriving DecidableEq

/-- The message of an address error. -/
def AddressError.message : AddressError → String
  | .wrongLength length => s!"invalid hash: {length} bytes, expected 32"
  | .notHex text => s!"invalid hex in hash: {text}"

namespace Address

/-- Addresses are compared byte by byte, from the first. -/
instance : LE Address := ⟨fun a b => a.bytes.toList ≤ b.bytes.toList⟩

instance (a b : Address) : Decidable (a ≤ b) :=
  inferInstanceAs (Decidable (a.bytes.toList ≤ b.bytes.toList))

instance : LT Address := ⟨fun a b => a.bytes.toList < b.bytes.toList⟩

instance (a b : Address) : Decidable (a < b) :=
  inferInstanceAs (Decidable (a.bytes.toList < b.bytes.toList))

/-- The address of a byte string is its digest. -/
def ofContent (content : List UInt8) : Address :=
  ⟨Digest.ofBytes content⟩

/-- An address from its bytes, if there are thirty-two. -/
def ofBytes (bytes : List UInt8) : Except AddressError Address :=
  if h : bytes.length = 32 then .ok ⟨⟨bytes.toArray, by simp [h]⟩⟩
  else .error (.wrongLength bytes.length)

/-- The bytes of an address, in order. -/
def toList (a : Address) : List UInt8 :=
  a.bytes.toList

theorem length_toList (a : Address) : a.toList.length = 32 := by
  simp [toList]

theorem ofBytes_toList (a : Address) : ofBytes a.toList = .ok a := by
  obtain ⟨⟨bytes, h⟩⟩ := a
  simp [ofBytes, toList, Vector.toList, h]

/-- The written form: sixty-four lower-case digits. -/
def hex (a : Address) : String :=
  String.ofList (hexOfBytes a.toList)

/-- The first eight digits, for display. -/
def short (a : Address) : String :=
  String.ofList ((hexOfBytes a.toList).take 8)

/-- Reads a written address of either case.  The length reported for a text of the wrong length is half of its
length in UTF-8, rounded down. -/
def ofHex (text : String) : Except AddressError Address :=
  if text.utf8ByteSize ≠ 64 then .error (.wrongLength (text.utf8ByteSize / 2))
  else match bytesOfHex? text.toList with
    | none => .error (.notHex text)
    | some bytes => ofBytes bytes

/-- Bytes that do not belong to the address they were found under. -/
structure Mismatch where
  expected : Address
  found : Address
  deriving DecidableEq

/-- The message of a mismatch. -/
def Mismatch.message (m : Mismatch) : String :=
  s!"hash does not match: expected {m.expected.hex}, found {m.found.hex}"

/-- Accepts `content` under the address `expected` only if it has that address. -/
def verify (expected : Address) (content : List UInt8) : Except Mismatch Unit :=
  if ofContent content = expected then .ok ()
  else .error ⟨expected, ofContent content⟩

theorem verify_ofContent (content : List UInt8) : verify (ofContent content) content = .ok () := by
  simp [verify]

end Address

end AddressedF
