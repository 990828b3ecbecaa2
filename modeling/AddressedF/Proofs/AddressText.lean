import AddressedF.Proofs.Hexadecimal

/-!
# Addresses and Their Texts

The texts that are read as addresses are exactly those of sixty-four hexadecimal digits.  Such a text is the
written form of the address that is read from it, but for the case of its digits.  Written forms come in the
same order as their addresses.

## Main Definitions

* `Address.IsHexText`: a text of sixty-four hexadecimal digits of either case

## Main Results

* `isSome_hexValue?`, `toLower_of_hexValue?`: the characters that are read as digits, and their values
* `exists_bytesOfHex?_iff`, `hexOfBytes_of_bytesOfHex?`: the same for texts of digits
* `hexOfBytes_lt_iff`: the order of bytes is that of the digits that are written for them
* `Address.hex_exact`: what is read from a text, which error there is for any other, and the order

## Design Notes

The length of a text is taken in bytes, its digits are characters.  The two agree because digits are ASCII
characters; where they do not agree, some character is no digit.
-/

namespace AddressedF

/-! ## Digits -/

theorem isSome_hexValue? (c : Char) : (hexValue? c).isSome = c.isHexDigit := by
  unfold hexValue? Char.isHexDigit Char.isDigit
  simp only [Char.le_def, ge_iff_le]
  grind

theorem toNat_lt_of_isHexDigit {c : Char} (h : c.isHexDigit) : c.toNat < 128 := by
  simp only [Char.isHexDigit, Char.isDigit, Bool.or_eq_true, Bool.and_eq_true, decide_eq_true_eq,
    UInt32.le_iff_toNat_le, ge_iff_le] at h
  have h9 : '9'.val.toNat = 57 := rfl
  have hf : 'f'.val.toNat = 102 := rfl
  have hF : 'F'.val.toNat = 70 := rfl
  have hc : c.toNat = c.val.toNat := rfl
  omega

/-- A digit of either case is read as the number that its lower-case form is written for. -/
theorem toLower_of_hexValue? {c : Char} {n : Nat} (h : hexValue? c = some n) :
    n < 16 ∧ c.toLower = hexDigit n := by
  have hall : ∀ i : Fin 128, ∀ m ∈ hexValue? (Char.ofNat i),
      m < 16 ∧ (Char.ofNat i).toLower = hexDigit m := by
    decide
  have hdigit : c.isHexDigit := by rw [← isSome_hexValue?, h, Option.isSome_some]
  have hc := hall ⟨c.toNat, toNat_lt_of_isHexDigit hdigit⟩ n
  rw [Char.ofNat_toNat] at hc
  exact hc h

theorem hexDigit_lt_hexDigit_iff {m n : Nat} (hm : m < 16) (hn : n < 16) :
    hexDigit m < hexDigit n ↔ m < n := by
  have hall : ∀ i j : Fin 16, hexDigit i < hexDigit j ↔ i.val < j.val := by decide
  exact hall ⟨m, hm⟩ ⟨n, hn⟩

theorem hexDigit_inj {m n : Nat} (hm : m < 16) (hn : n < 16) : hexDigit m = hexDigit n ↔ m = n := by
  constructor
  · intro h
    have := hexValue?_hexDigit hm
    rw [h, hexValue?_hexDigit hn, Option.some.injEq] at this
    exact this.symm
  · rintro rfl
    rfl

/-! ## Texts of digits -/

/-- Any two digits are read as a byte, so exactly the texts of an even number of digits are read. -/
theorem exists_bytesOfHex?_iff (text : List Char) :
    (∃ bytes, bytesOfHex? text = some bytes) ↔ 2 ∣ text.length ∧ ∀ c ∈ text, c.isHexDigit := by
  induction text using bytesOfHex?.induct with
  | case1 => simp [bytesOfHex?]
  | case2 c => simp [bytesOfHex?]
  | case3 high low rest ih =>
    have hlength : 2 ∣ (high :: low :: rest).length ↔ 2 ∣ rest.length := by
      simp only [List.length_cons]
      omega
    rw [hlength, List.forall_mem_cons, List.forall_mem_cons, ← isSome_hexValue?, ← isSome_hexValue?]
    constructor
    · rintro ⟨_, h⟩
      obtain ⟨h₁, hhigh, h⟩ := Option.bind_eq_some_iff.mp h
      obtain ⟨h₂, hlow, h⟩ := Option.bind_eq_some_iff.mp h
      obtain ⟨bytes, hrest, -⟩ := Option.bind_eq_some_iff.mp h
      obtain ⟨heven, hdigits⟩ := ih.mp ⟨bytes, hrest⟩
      exact ⟨heven, by rw [hhigh, Option.isSome_some], by rw [hlow, Option.isSome_some], hdigits⟩
    · rintro ⟨heven, hhigh, hlow, hdigits⟩
      obtain ⟨h₁, hhigh⟩ := Option.isSome_iff_exists.mp hhigh
      obtain ⟨h₂, hlow⟩ := Option.isSome_iff_exists.mp hlow
      obtain ⟨bytes, hrest⟩ := ih.mpr ⟨heven, hdigits⟩
      rw [bytesOfHex?, hhigh, hlow, hrest]
      exact ⟨_, rfl⟩

/-- What is read is what the text is written for, in lower case. -/
theorem hexOfBytes_of_bytesOfHex? {text : List Char} {bytes : List UInt8}
    (h : bytesOfHex? text = some bytes) : hexOfBytes bytes = text.map Char.toLower := by
  induction text using bytesOfHex?.induct generalizing bytes with
  | case1 =>
    cases h
    rfl
  | case2 c => cases h
  | case3 high low rest ih =>
    obtain ⟨m, hhigh, h⟩ := Option.bind_eq_some_iff.mp h
    obtain ⟨n, hlow, h⟩ := Option.bind_eq_some_iff.mp h
    obtain ⟨bytes, hrest, h⟩ := Option.bind_eq_some_iff.mp h
    cases h
    obtain ⟨hm, hhigh⟩ := toLower_of_hexValue? hhigh
    obtain ⟨hn, hlow⟩ := toLower_of_hexValue? hlow
    have hbyte : (UInt8.ofNat (16 * m + n)).toNat = 16 * m + n :=
      UInt8.toNat_ofNat_of_lt' (by simp only [UInt8.size]; omega)
    have hdiv : (16 * m + n) / 16 = m := by omega
    have hmod : (16 * m + n) % 16 = n := by omega
    rw [hexOfBytes_cons, hbyte, hdiv, hmod, ih hrest, List.map_cons, List.map_cons, hhigh, hlow]

/-- Texts of digits are compared as the bytes that they are written for. -/
theorem hexOfBytes_lt_iff (bytes bytes' : List UInt8) :
    hexOfBytes bytes < hexOfBytes bytes' ↔ bytes < bytes' := by
  induction bytes generalizing bytes' with
  | nil =>
    cases bytes' with
    | nil => simp
    | cons b' bytes' => simp [hexOfBytes_nil, hexOfBytes_cons]
  | cons b bytes ih =>
    cases bytes' with
    | nil => simp [hexOfBytes_nil]
    | cons b' bytes' =>
      have hb := b.toNat_lt
      have hb' := b'.toNat_lt
      -- the high digits decide first, then the low ones
      have hlt : b < b' ↔ b.toNat / 16 < b'.toNat / 16 ∨
          b.toNat / 16 = b'.toNat / 16 ∧ b.toNat % 16 < b'.toNat % 16 := by
        rw [UInt8.lt_iff_toNat_lt]
        omega
      have heq : b = b' ↔ b.toNat / 16 = b'.toNat / 16 ∧ b.toNat % 16 = b'.toNat % 16 := by
        rw [← UInt8.toNat_inj]
        omega
      have hhigh : b.toNat / 16 < 16 ∧ b'.toNat / 16 < 16 := by omega
      have hlow : b.toNat % 16 < 16 ∧ b'.toNat % 16 < 16 := by omega
      rw [hexOfBytes_cons, hexOfBytes_cons, List.cons_lt_cons_iff, List.cons_lt_cons_iff, ih,
        List.cons_lt_cons_iff, hexDigit_lt_hexDigit_iff hhigh.1 hhigh.2, hexDigit_inj hhigh.1 hhigh.2,
        hexDigit_lt_hexDigit_iff hlow.1 hlow.2, hexDigit_inj hlow.1 hlow.2, hlt, heq, and_or_left,
        ← or_assoc, and_assoc]

/-! ## Addresses -/

namespace Address

/-- A text of sixty-four hexadecimal digits, of either case. -/
def IsHexText (text : String) : Prop :=
  text.length = 64 ∧ ∀ c ∈ text.toList, c.isHexDigit

instance (text : String) : Decidable (IsHexText text) :=
  inferInstanceAs (Decidable (text.length = 64 ∧ ∀ c ∈ text.toList, c.isHexDigit))

theorem utf8ByteSize_of_digits {text : String} (h : ∀ c ∈ text.toList, c.isHexDigit) :
    text.utf8ByteSize = text.length := by
  have hsize := Text.utf8ByteSize_ofList_of_ascii fun c hc => toNat_lt_of_isHexDigit (h c hc)
  rwa [String.ofList_toList, String.length_toList] at hsize

/-- Sixty-four digits are as many bytes of text, and are read in pairs. -/
theorem isHexText_iff (text : String) :
    IsHexText text ↔ text.utf8ByteSize = 64 ∧ ∃ bytes, bytesOfHex? text.toList = some bytes := by
  rw [exists_bytesOfHex?_iff, IsHexText, String.length_toList]
  constructor
  · rintro ⟨hlength, hdigits⟩
    rw [utf8ByteSize_of_digits hdigits, hlength]
    exact ⟨rfl, by omega, hdigits⟩
  · rintro ⟨hsize, -, hdigits⟩
    rw [utf8ByteSize_of_digits hdigits] at hsize
    exact ⟨hsize, hdigits⟩

theorem length_of_bytesOfHex? {text : List Char} {bytes : List UInt8} (h : bytesOfHex? text = some bytes) :
    text.length = 2 * bytes.length := by
  rw [← length_hexOfBytes, hexOfBytes_of_bytesOfHex? h, List.length_map]

/-- Bytes of the right number are those of an address. -/
theorem exists_ofBytes {bytes : List UInt8} (h : bytes.length = 32) :
    ∃ a : Address, ofBytes bytes = .ok a ∧ a.toList = bytes := by
  refine ⟨⟨⟨bytes.toArray, by simp [h]⟩⟩, dif_pos h, ?_⟩
  simp [toList]

/-- A text of sixty-four digits is read as the address whose written form is the text in lower case. -/
theorem exists_ofHex {text : String} (h : IsHexText text) :
    ∃ a, ofHex text = .ok a ∧ a.hex = text.toLower := by
  obtain ⟨hsize, bytes, hbytes⟩ := (isHexText_iff text).mp h
  have hlength : bytes.length = 32 := by
    have := length_of_bytesOfHex? hbytes
    rw [String.length_toList, h.1] at this
    omega
  obtain ⟨a, ha, hlist⟩ := exists_ofBytes hlength
  refine ⟨a, ?_, ?_⟩
  · rw [ofHex, if_neg (by simp [hsize]), hbytes]
    exact ha
  · have hlower : text.toLower.toList = text.toList.map Char.toLower := String.toList_map
    rw [← String.toList_inj, toList_hex, hlist, hexOfBytes_of_bytesOfHex? hbytes, hlower]

/-- For any other text the length in bytes decides between the two errors. -/
theorem ofHex_of_not_isHexText {text : String} (h : ¬ IsHexText text) :
    ofHex text = .error
      (if text.utf8ByteSize = 64 then .notHex text else .wrongLength (text.utf8ByteSize / 2)) := by
  rw [ofHex]
  by_cases hsize : text.utf8ByteSize = 64
  · have hbytes : bytesOfHex? text.toList = none := by
      rw [Option.eq_none_iff_forall_ne_some]
      exact fun bytes hbytes => h ((isHexText_iff text).mpr ⟨hsize, bytes, hbytes⟩)
    rw [if_neg (by simp [hsize]), if_pos hsize, hbytes]
  · rw [if_pos hsize, if_neg hsize]

theorem ofHex_eq_ok_iff {text : String} {a : Address} :
    ofHex text = .ok a ↔ IsHexText text ∧ a.hex = text.toLower := by
  by_cases h : IsHexText text
  · obtain ⟨b, hb, hlower⟩ := exists_ofHex h
    rw [hb, Except.ok.injEq, ← hlower, hex_injective.eq_iff, eq_comm]
    exact (and_iff_right h).symm
  · rw [ofHex_of_not_isHexText h]
    exact ⟨fun herror => (nomatch herror), fun htext => absurd htext.1 h⟩

theorem ofHex_eq_error_iff {text : String} {e : AddressError} :
    ofHex text = .error e ↔ ¬ IsHexText text ∧
      e = if text.utf8ByteSize = 64 then .notHex text else .wrongLength (text.utf8ByteSize / 2) := by
  by_cases h : IsHexText text
  · obtain ⟨b, hb, -⟩ := exists_ofHex h
    rw [hb]
    exact ⟨fun herror => (nomatch herror), fun htext => absurd h htext.1⟩
  · rw [ofHex_of_not_isHexText h, Except.error.injEq, eq_comm]
    exact (and_iff_right h).symm

theorem hex_lt_hex_iff (a b : Address) : a.hex < b.hex ↔ a < b := by
  rw [String.lt_iff, toList_hex, toList_hex, hexOfBytes_lt_iff]
  rfl

/-- The texts of sixty-four hexadecimal digits are read, each as the address whose written form is the text in
lower case; for any other text the error tells half of its length in bytes, or repeats the text if the length
is right.  Addresses are read from their written forms, which are in the order of the addresses. -/
theorem hex_exact (text : String) (a b : Address) :
    ((∃ c, ofHex text = .ok c) ↔ IsHexText text) ∧
    (∀ c, ofHex text = .ok c ↔ IsHexText text ∧ c.hex = text.toLower) ∧
    (∀ e, ofHex text = .error e ↔ ¬ IsHexText text ∧
      e = if text.utf8ByteSize = 64 then .notHex text else .wrongLength (text.utf8ByteSize / 2)) ∧
    ofHex a.hex = .ok a ∧ (a < b ↔ a.hex < b.hex) := by
  refine ⟨⟨?_, ?_⟩, fun c => ofHex_eq_ok_iff, fun e => ofHex_eq_error_iff, ofHex_hex a,
    (hex_lt_hex_iff a b).symm⟩
  · rintro ⟨c, hc⟩
    exact (ofHex_eq_ok_iff.mp hc).1
  · intro h
    obtain ⟨c, hc, -⟩ := exists_ofHex h
    exact ⟨c, hc⟩

/-- A text of thirty-two characters may have sixty-four bytes, and is then refused for its characters. -/
example : ofHex (String.ofList (List.replicate 32 'é')) =
    .error (.notHex (String.ofList (List.replicate 32 'é'))) :=
  ofHex_of_not_isHexText (by decide)

end Address

end AddressedF
