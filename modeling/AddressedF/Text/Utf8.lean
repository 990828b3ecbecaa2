/-!
# UTF-8

## Main Definitions

* `Text.encodeUtf8`: the bytes of a text
* `Text.decodeUtf8`: the text of any bytes

## Design Notes

Decoding is total.  Where the bytes stop being the encoding of a character, what was read of it becomes one
replacement character, and decoding goes on with the byte that does not fit.  A byte that starts no character
is replaced by itself.
-/

namespace AddressedF.Text

/-- The bytes of a text. -/
def encodeUtf8 (text : String) : List UInt8 :=
  text.toList.flatMap String.utf8EncodeChar

/-- What the first byte of a character says about the others. -/
structure Lead where
  /-- The number of bytes to follow. -/
  count : Nat
  /-- The least second byte. -/
  low : UInt8
  /-- The greatest second byte. -/
  high : UInt8
  /-- The leading bits of the code point. -/
  bits : Nat

/-- Reads the first byte of a character of several bytes.  The bounds on the second byte leave out
surrogates, code points beyond the last, and encodings that are longer than they need to be. -/
def lead? (b : UInt8) : Option Lead :=
  if b < 0xc2 then none
  else if b < 0xe0 then some ⟨1, 0x80, 0xbf, b.toNat - 0xc0⟩
  else if b = 0xe0 then some ⟨2, 0xa0, 0xbf, 0⟩
  else if b = 0xed then some ⟨2, 0x80, 0x9f, 0xd⟩
  else if b < 0xf0 then some ⟨2, 0x80, 0xbf, b.toNat - 0xe0⟩
  else if b = 0xf0 then some ⟨3, 0x90, 0xbf, 0⟩
  else if b < 0xf4 then some ⟨3, 0x80, 0xbf, b.toNat - 0xf0⟩
  else if b = 0xf4 then some ⟨3, 0x80, 0x8f, 4⟩
  else none

/-- Reads `count` more bytes of a character, the first of them between `low` and `high`.  Returns the code
point, if they fit, and the bytes that were not read. -/
def readMore : (count : Nat) → (low high : UInt8) → (bits : Nat) → List UInt8 → Option Nat × List UInt8
  | 0, _, _, bits, rest => (some bits, rest)
  | _ + 1, _, _, _, [] => (none, [])
  | count + 1, low, high, bits, b :: rest =>
    if low ≤ b ∧ b ≤ high then readMore count 0x80 0xbf (64 * bits + (b.toNat - 0x80)) rest
    else (none, b :: rest)

theorem length_readMore_le (count : Nat) (low high : UInt8) (bits : Nat) (bytes : List UInt8) :
    (readMore count low high bits bytes).2.length ≤ bytes.length := by
  induction count generalizing low high bits bytes with
  | zero => simp [readMore]
  | succ count ih =>
    cases bytes with
    | nil => simp [readMore]
    | cons b rest =>
      unfold readMore
      split
      · exact Nat.le_succ_of_le (ih _ _ _ _)
      · exact Nat.le_refl _

/-- What stands for bytes that are no character. -/
def replacement : Char := '\ufffd'

/-- The text of any bytes. -/
def decodeUtf8 : List UInt8 → List Char
  | [] => []
  | b :: rest =>
    if b < 0x80 then Char.ofNat b.toNat :: decodeUtf8 rest
    else match lead? b with
      | none => replacement :: decodeUtf8 rest
      | some l =>
        ((readMore l.count l.low l.high l.bits rest).1.map Char.ofNat).getD replacement ::
          decodeUtf8 (readMore l.count l.low l.high l.bits rest).2
termination_by bytes => bytes.length
decreasing_by
  · simp only [List.length_cons]; omega
  · simp only [List.length_cons]; omega
  · have := length_readMore_le l.count l.low l.high l.bits rest
    simp only [List.length_cons]; omega

end AddressedF.Text
