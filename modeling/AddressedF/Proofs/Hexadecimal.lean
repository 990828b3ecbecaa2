import AddressedF.Address
import AddressedF.Text.Blank
import AddressedF.Text.Utf8
import Mathlib.Data.List.TakeWhile

/-!
# The Written Form of Addresses

What is written of an address can be read again, also after it went through a file as bytes of text.

## Main Results

* `exists_of_mem_hexOfBytes`: only the sixteen lower-case digits are written
* `bytesOfHex?_hexOfBytes`: digits are read as the bytes they were written for
* `Address.ofHex_hex`: an address is read from its written form
* `Text.decodeUtf8_encodeUtf8_of_ascii`, `Text.trim_eq_self`: bytes of text and blank space at the ends

## Design Notes

A property of all digits that are written is a property of sixteen characters, so it is decided, and then goes
over to whole texts along `exists_of_mem_hexOfBytes`.
-/

namespace AddressedF

/-! ## Digits -/

theorem hexValue?_hexDigit {n : Nat} (h : n < 16) : hexValue? (hexDigit n) = some n := by
  have hall : ∀ i : Fin 16, hexValue? (hexDigit i) = some i.val := by decide
  exact hall ⟨n, h⟩

theorem toNat_hexDigit_lt {n : Nat} (h : n < 16) : (hexDigit n).toNat < 128 := by
  have hall : ∀ i : Fin 16, (hexDigit i).toNat < 128 := by decide
  exact hall ⟨n, h⟩

theorem isBlank_hexDigit {n : Nat} (h : n < 16) : Text.isBlank (hexDigit n) = false := by
  have hall : ∀ i : Fin 16, Text.isBlank (hexDigit i) = false := by decide
  exact hall ⟨n, h⟩

theorem hexDigit_ne_dot {n : Nat} (h : n < 16) : hexDigit n ≠ '.' := by
  have hall : ∀ i : Fin 16, hexDigit i ≠ '.' := by decide
  exact hall ⟨n, h⟩

theorem exists_of_mem_hexOfBytes {bytes : List UInt8} {c : Char} (h : c ∈ hexOfBytes bytes) :
    ∃ n < 16, c = hexDigit n := by
  induction bytes with
  | nil => simp [hexOfBytes_nil] at h
  | cons b bytes ih =>
    have hb := b.toNat_lt
    simp only [hexOfBytes_cons, List.mem_cons] at h
    obtain rfl | rfl | h := h
    · exact ⟨b.toNat / 16, by omega, rfl⟩
    · exact ⟨b.toNat % 16, by omega, rfl⟩
    · exact ih h

theorem bytesOfHex?_hexOfBytes (bytes : List UInt8) : bytesOfHex? (hexOfBytes bytes) = some bytes := by
  induction bytes with
  | nil => rfl
  | cons b bytes ih =>
    have hb := b.toNat_lt
    have hhigh : b.toNat / 16 < 16 := by omega
    have hlow : b.toNat % 16 < 16 := by omega
    have hsum : 16 * (b.toNat / 16) + b.toNat % 16 = b.toNat := by omega
    rw [hexOfBytes_cons, bytesOfHex?, hexValue?_hexDigit hhigh, hexValue?_hexDigit hlow, ih]
    simp only [Option.bind_eq_bind, Option.bind_some, Option.pure_def, hsum, UInt8.ofNat_toNat]

/-! ## Texts of ASCII characters -/

namespace Text

theorem utf8Size_of_ascii {c : Char} (h : c.toNat < 128) : c.utf8Size = 1 := by
  rw [Char.utf8Size_eq_one_iff, UInt32.le_iff_toNat_le]
  exact Nat.le_of_lt_succ h

theorem utf8EncodeChar_of_ascii {c : Char} (h : c.toNat < 128) :
    String.utf8EncodeChar c = [UInt8.ofNat c.toNat] := by
  rw [String.utf8EncodeChar_eq_singleton (utf8Size_of_ascii h)]
  rfl

theorem utf8ByteSize_ofList_of_ascii {text : List Char} (h : ∀ c ∈ text, c.toNat < 128) :
    (String.ofList text).utf8ByteSize = text.length := by
  rw [← String.size_toByteArray, String.toByteArray_ofList]
  induction text with
  | nil => rfl
  | cons c text ih =>
    have hc := utf8Size_of_ascii (h c List.mem_cons_self)
    have ih := ih fun c' hc' => h c' (List.mem_cons_of_mem _ hc')
    rw [List.utf8Encode_cons, ByteArray.size_append, ih, List.utf8Encode_singleton, List.size_toByteArray,
      String.length_utf8EncodeChar, hc, List.length_cons, Nat.add_comm]

theorem decodeUtf8_encodeUtf8_of_ascii {text : List Char} (h : ∀ c ∈ text, c.toNat < 128) :
    decodeUtf8 (encodeUtf8 (String.ofList text)) = text := by
  rw [encodeUtf8, String.toList_ofList]
  induction text with
  | nil => rw [List.flatMap_nil, decodeUtf8]
  | cons c text ih =>
    have hc := h c List.mem_cons_self
    have hbyte : (UInt8.ofNat c.toNat).toNat = c.toNat := by
      rw [UInt8.toNat_ofNat', Nat.mod_eq_of_lt (by omega)]
    have hlow : UInt8.ofNat c.toNat < 0x80 := by
      rw [UInt8.lt_iff_toNat_lt, hbyte]
      exact hc
    rw [List.flatMap_cons, utf8EncodeChar_of_ascii hc, List.singleton_append, decodeUtf8, if_pos hlow, hbyte,
      Char.ofNat_toNat, ih fun c' hc' => h c' (List.mem_cons_of_mem _ hc')]

theorem trim_eq_self {text : List Char} (h : ∀ c ∈ text, isBlank c = false) : trim text = text := by
  have hfront : ∀ {cs : List Char}, (∀ c ∈ cs, isBlank c = false) → cs.dropWhile isBlank = cs := by
    intro cs hcs
    exact List.dropWhile_eq_self_iff.mpr fun _ => by simp [hcs _ (List.getElem_mem _)]
  rw [trim, hfront h, hfront fun c hc => h c (List.mem_reverse.mp hc), List.reverse_reverse]

end Text

/-! ## Addresses -/

namespace Address

theorem toList_hex (a : Address) : a.hex.toList = hexOfBytes a.toList := by
  simp [hex]

theorem ascii_hex (a : Address) : ∀ c ∈ hexOfBytes a.toList, c.toNat < 128 := by
  intro c hc
  obtain ⟨n, hn, rfl⟩ := exists_of_mem_hexOfBytes hc
  exact toNat_hexDigit_lt hn

theorem dot_notMem_hex (a : Address) : '.' ∉ a.hex.toList := by
  rw [toList_hex]
  intro h
  obtain ⟨n, hn, hdot⟩ := exists_of_mem_hexOfBytes h
  exact hexDigit_ne_dot hn hdot.symm

/-- An address is read from its written form. -/
theorem ofHex_hex (a : Address) : ofHex a.hex = .ok a := by
  have hsize : a.hex.utf8ByteSize = 64 := by
    rw [hex, Text.utf8ByteSize_ofList_of_ascii a.ascii_hex, length_hexOfBytes, length_toList]
  rw [ofHex, if_neg (by simp [hsize]), toList_hex, bytesOfHex?_hexOfBytes]
  exact ofBytes_toList a

theorem hex_injective : Function.Injective hex := by
  intro a b h
  have ha := ofHex_hex a
  rw [h, ofHex_hex] at ha
  exact (Except.ok.inj ha).symm

end Address

end AddressedF
