import AddressedF.Proofs.Checked

/-!
# Numerals

Natural numbers as an opaque type.  A number is the function that applies another function so many times, and
nothing of this can be seen from outside but through the two sides of the definition.

## Main Definitions

* `Numeral.definition`: the representation of numbers
* `Numeral.ofNat`: the term of a number
* `Numeral.atByte`: the number as a function on bytes
* `Numeral.signature`: numbers and one of them, defined at an address

## Main Results

* `Numeral.typeOf_ofNat`, `Numeral.typeOf_atByte`: the types of both
* `Numeral.checked_signature`: the definitions are checked
-/

namespace AddressedF.Numeral

/-- The functions from a start and a function on one type to what the function makes of the start. -/
def iteration : Ty :=
  .arrow (.var 0) (.arrow (.arrow (.var 0) (.var 0)) (.var 0))

/-- A number applies functions on any type. -/
def definition : TypeDef :=
  ⟨[], .all .star iteration⟩

/-- The encoding of the definition. -/
def bytes : List UInt8 :=
  [0, 3, 0, 0, 2, 2, 0, 0, 4, 2, 2, 0, 0, 2, 2, 0, 0, 4, 4, 4]

/-- The digest of the encoding. -/
def digest : Address :=
  ⟨⟨#[152, 61, 122, 229, 130, 202, 200, 60, 59, 67, 70, 10, 45, 19, 72, 96, 114, 104, 164, 186, 162, 10, 172,
    99, 243, 245, 47, 6, 12, 178, 241, 12], rfl⟩⟩

/-- The number that applies nothing. -/
def zero (address : Address) : Term :=
  .app (.pack address)
    (.tlam .star (.lam (.var 0) (.lam (.arrow (.var 0) (.var 0)) (.var 1))))

/-- The digest of the encoding of zero. -/
def zeroDigest : Address :=
  ⟨⟨#[23, 71, 49, 234, 3, 240, 4, 59, 138, 106, 63, 92, 76, 1, 255, 34, 225, 46, 8, 251, 228, 81, 150, 84, 41,
    88, 226, 32, 147, 247, 104, 19], rfl⟩⟩

/-- The function from a number to the one that applies once more. -/
def succ (address : Address) : Term :=
  .lam (.ref address) (.app (.pack address)
    (.tlam .star (.lam (.var 0) (.lam (.arrow (.var 0) (.var 0))
      (.app (.var 0) (.app (.app (.tapp (.app (.unpack address) (.var 2)) (.var 0)) (.var 1))
        (.var 0)))))))

/-- The term of a number. -/
def ofNat (address : Address) : Nat → Term
  | 0 => zero address
  | n + 1 => .app (succ address) (ofNat address n)

/-- A term of the opaque type as a function that applies a function on bytes. -/
def atByte (address : Address) (t : Term) : Term :=
  .tapp (.app (.unpack address) t) .byte

/-- The definition of numbers at an address, and one number at the same address. -/
def signature (address : Address) (n : Nat) : Signature :=
  (Signature.empty.addType address definition .star).addTerm address (ofNat address n) (.ref address)

variable {sig : Signature} {address : Address} {t : Term}

/-! ## Types of numerals -/

theorem packType_eq (h : sig.types.get? address = some ⟨definition, .star⟩) :
    sig.packType address = .ok (.arrow definition.body (.ref address)) :=
  Signature.packType_eq_ok_iff.mpr ⟨_, h, rfl⟩

theorem unpackType_eq (h : sig.types.get? address = some ⟨definition, .star⟩) :
    sig.unpackType address = .ok (.arrow (.ref address) definition.body) :=
  Signature.unpackType_eq_ok_iff.mpr ⟨_, h, rfl⟩

theorem typeOf_zero (h : sig.types.get? address = some ⟨definition, .star⟩) :
    sig.typeOf .empty (zero address) = .ok (.ref address) :=
  Signature.typeOf_app_iff.mpr ⟨_, packType_eq h, rfl⟩

/-- One more application, in the context of the number and of what its representation takes. -/
theorem typeOf_succ (h : sig.types.get? address = some ⟨definition, .star⟩) :
    sig.typeOf .empty (succ address) = .ok (.arrow (.ref address) (.ref address)) := by
  have href : sig.kindOf [] (.ref address) = .ok .star := by
    rw [Signature.kindOf_ref_iff, Signature.kindAt?, h]
    rfl
  refine Signature.typeOf_lam_iff.mpr ⟨_, href, ?_, rfl⟩
  refine Signature.typeOf_app_iff.mpr ⟨_, packType_eq h, ?_⟩
  refine Signature.typeOf_tlam_iff.mpr ⟨_, ?_, rfl⟩
  refine Signature.typeOf_lam_iff.mpr ⟨_, rfl, ?_, rfl⟩
  refine Signature.typeOf_lam_iff.mpr ⟨_, rfl, ?_, rfl⟩
  refine Signature.typeOf_app_iff.mpr ⟨_, rfl, ?_⟩
  refine Signature.typeOf_app_iff.mpr ⟨_, ?_, rfl⟩
  refine Signature.typeOf_app_iff.mpr ⟨_, ?_, rfl⟩
  refine Signature.typeOf_tapp_iff.mpr ⟨.star, iteration, ?_, rfl, rfl⟩
  exact Signature.typeOf_app_iff.mpr ⟨_, unpackType_eq h, rfl⟩

theorem typeOf_ofNat (h : sig.types.get? address = some ⟨definition, .star⟩) (n : Nat) :
    sig.typeOf .empty (ofNat address n) = .ok (.ref address) := by
  induction n with
  | zero => exact typeOf_zero h
  | succ n ih => exact Signature.typeOf_app_iff.mpr ⟨_, typeOf_succ h, ih⟩

/-- What a number of applications takes when it is used for bytes. -/
theorem typeOf_atByte (h : sig.types.get? address = some ⟨definition, .star⟩)
    (ht : sig.typeOf .empty t = .ok (.ref address)) :
    sig.typeOf .empty (atByte address t) =
      .ok (.arrow .byte (.arrow (.arrow .byte .byte) .byte)) :=
  Signature.typeOf_tapp_iff.mpr
    ⟨.star, iteration, Signature.typeOf_app_iff.mpr ⟨_, unpackType_eq h, ht⟩, rfl, rfl⟩

/-! ## A signature of numbers -/

theorem get?_types_signature (address : Address) (n : Nat) :
    (signature address n).types.get? address = some ⟨definition, .star⟩ := by
  show (Table.insertIfNew .empty address _).get? address = _
  rw [Table.get?_insertIfNew_of_none rfl, if_pos rfl]

theorem checked_signature (address : Address) (n : Nat) : (signature address n).Checked := by
  refine .addTerm address (.addType address .empty rfl) (typeOf_ofNat ?_ n)
  exact get?_types_signature address n

theorem typeOf_ref (address : Address) (n : Nat) :
    (signature address n).typeOf .empty (.ref address) = .ok (.ref address) := by
  refine Signature.typeOf_ref_iff.mpr ⟨⟨ofNat address n, .ref address⟩, ?_, rfl⟩
  show (Table.insertIfNew .empty address _).get? address = _
  rw [Table.get?_insertIfNew_of_none rfl, if_pos rfl]

end AddressedF.Numeral
