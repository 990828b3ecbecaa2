import AddressedF.Proofs.Encoding

/-!
# Decoding Any Bytes

Decoders are run on bytes that nobody has encoded.  Whatever the bytes are, what is reported about them is so:
they are a value, they break off inside of one, they are a value with more bytes behind it, or they have
nothing to do with any value.

## Main Results

* `Kind.describes_read`, `Ty.describes_read`, `TypeDef.describes_read`, `Term.describes_read`: readers tell
  what is the case
* `decode_exact`: the four decoders tell what is the case
-/

namespace AddressedF

open Format

/-- A byte that is not one of the first tags is one of the later ones, or a variable. -/
theorem next_tag_le {tag : UInt8} {n : Nat} (h : n ≤ tag.toNat) (hne : tag = .ofNat n → False) :
    n + 1 ≤ tag.toNat :=
  Nat.lt_of_le_of_ne h fun heq => hne (by rw [heq, UInt8.ofNat_toNat])

/-! ## Kinds and addresses -/

namespace Kind

theorem not_format_nil (k : Kind) : ¬ format k [] :=
  isReadBy.not_of_error (by rw [read]) k

theorem format_arrow_iff (k k' : Kind) (e : List UInt8) :
    format (arrow k k') e ↔ ∃ d d', format k d ∧ format k' d' ∧ e = 1 :: (d ++ d') := by
  constructor
  · rintro ⟨⟩
    exact ⟨k.encode, k'.encode, rfl, rfl, rfl⟩
  · rintro ⟨_, _, ⟨⟩, ⟨⟩, rfl⟩
    rfl

theorem describes_read (input : List UInt8) : format.Describes (read input) := by
  induction input using read.induct with
  | case1 =>
    rw [read]
    exact isTruncated_nil (x := star) rfl not_format_nil
  | case2 =>
    rw [read]
    exact ⟨star, [0, 0], rfl, by decide, by decide⟩
  | case3 rest =>
    rw [read]
    exact ⟨[0, 0], rfl, rfl⟩
  | case4 byte tail hbyte =>
    have hone := isReadBy.not_of_error (d := [0]) (by rw [read])
    have htwo := fun k e => isReadBy.not_of_error (d := 0 :: byte :: e) (by rw [read]; exact hbyte) k
    rw [read]
    · exact isForeign_cons_cons not_format_nil hone htwo
    · exact hbyte
  | case5 rest ih ihrest =>
    exact .taggedSequence isReadBy not_format_nil (fun _ => by rw [read]) format_arrow_iff isReadBy
      ⟨star, [0, 0], rfl⟩ ih ihrest
  | case6 rest tag hzero hone =>
    have htag := fun k e => isReadBy.not_of_error (d := tag :: e) (by rw [read] <;> assumption) k
    rw [read]
    · exact isForeign_cons not_format_nil htag
    · exact hzero
    · exact hone

end Kind

namespace Address

/-- References, and the two sides of a defined type, are a tag and an address. -/
theorem format_iff_of_tag {α : Type} {encode : α → Except EncodeError (List UInt8)} {f : Address → α}
    {tag : UInt8} (hf : ∀ a, encode (f a) = .ok (tag :: a.toList)) (a : Address) (e : List UInt8) :
    Format.of encode (f a) (tag :: e) ↔ format a e := by
  rw [Format.of, hf]
  constructor
  · rintro ⟨⟩
    rfl
  · rintro ⟨⟩
    rfl

/-- Fewer than thirty-two bytes are the beginning of an address, and more start with one. -/
theorem describes_read (input : List UInt8) : format.Describes (read input) := by
  unfold read
  split
  · refine ⟨input.take 32, ?_, (List.take_append_drop 32 input).symm⟩
    rfl
  · rename_i hlength
    have hpad : (input ++ List.replicate (32 - input.length) 0).length = 32 := by
      rw [List.length_append, List.length_replicate]
      omega
    refine ⟨⟨⟨(input ++ List.replicate (32 - input.length) 0).toArray, by simpa using hpad⟩⟩, _, rfl,
      List.prefix_append _ _, fun heq => ?_⟩
    have := congrArg List.length heq
    rw [length_toList] at this
    omega

end Address

/-! ## Types -/

namespace Ty

theorem not_format_nil (t : Ty) : ¬ format t [] :=
  isReadBy.not_of_error (by rw [read]) t

theorem exists_format : ∃ t d, format t d :=
  ⟨con .byte, [0, 1], rfl⟩

theorem format_app_iff (f a : Ty) (e : List UInt8) :
    format (app f a) e ↔ ∃ d d', format f d ∧ format a d' ∧ e = 2 :: (d ++ d') :=
  encode_app_iff

theorem format_all_iff (k : Kind) (body : Ty) (e : List UInt8) :
    format (all k body) e ↔
      ∃ d d', Kind.format k d ∧ format body d' ∧ e = 3 :: (d ++ d') :=
  encode_all_iff

/-- Every byte that is no tag stands for a variable. -/
theorem format_var {tag : UInt8} (h : firstTypeVar ≤ tag.toNat) :
    format (var (tag.toNat - firstTypeVar)) [tag] := by
  have hlt := tag.toNat_lt
  refine encode_var_iff.mpr ⟨by simp only [firstTypeVar] at h ⊢; omega, ?_⟩
  rw [Nat.add_sub_cancel' h, UInt8.ofNat_toNat]

theorem describes_read (input : List UInt8) : format.Describes (read input) := by
  induction input using read.induct with
  | case1 =>
    rw [read]
    exact isTruncated_nil (x := con .byte) rfl not_format_nil
  | case2 =>
    rw [read]
    exact ⟨con .arrow, [0, 0], rfl, by decide, by decide⟩
  | case3 rest =>
    rw [read]
    exact ⟨[0, 0], rfl, rfl⟩
  | case4 rest =>
    rw [read]
    exact ⟨[0, 1], rfl, rfl⟩
  | case5 byte tail hzero hone =>
    have hend := isReadBy.not_of_error (d := [0]) (by rw [read])
    have hbyte := fun t e =>
      isReadBy.not_of_error (d := 0 :: byte :: e) (by rw [read] <;> assumption) t
    rw [read]
    · exact isForeign_cons_cons not_format_nil hend hbyte
    · exact hzero
    · exact hone
  | case6 rest =>
    exact .taggedMap isReadBy not_format_nil (fun _ => by rw [read])
      (Address.format_iff_of_tag fun _ => rfl) (Address.describes_read rest)
  | case7 rest ih ihrest =>
    exact .taggedSequence isReadBy not_format_nil (fun _ => by rw [read]) format_app_iff
      isReadBy exists_format ih ihrest
  | case8 rest ihrest =>
    exact .taggedSequence isReadBy not_format_nil (fun _ => by rw [read]) format_all_iff
      Kind.isReadBy exists_format (Kind.describes_read rest) ihrest
  | case9 rest tag hzero hone htwo hthree =>
    have htag : firstTypeVar ≤ tag.toNat :=
      next_tag_le (next_tag_le (next_tag_le (next_tag_le (Nat.zero_le _) hzero) hone) htwo) hthree
    rw [read_var htag]
    exact ⟨[tag], format_var htag, rfl⟩

end Ty

/-! ## Type definitions -/

namespace TypeDef

/-- The bytes of definitions with so many parameters, without their number. -/
def bodyFormat : Nat → Format TypeDef
  | 0 => Ty.format.map (mk [])
  | count + 1 => Kind.format.sequence (bodyFormat count) cons

theorem bodyFormat_iff {count : Nat} {d : TypeDef} {e : List UInt8} :
    bodyFormat count d e ↔ d.params.length = count ∧ ∃ db, d.body.encode = .ok db ∧
      e = d.params.flatMap Kind.encode ++ db := by
  induction count generalizing d e with
  | zero =>
    constructor
    · rintro ⟨body, hbody, rfl⟩
      exact ⟨rfl, e, hbody, rfl⟩
    · obtain ⟨params, body⟩ := d
      rintro ⟨hlength, db, hbody, rfl⟩
      obtain rfl := List.length_eq_zero_iff.mp hlength
      exact ⟨body, hbody, rfl⟩
  | succ count ih =>
    constructor
    · rintro ⟨k, _, d, dr, ⟨⟩, hd, rfl, rfl⟩
      obtain ⟨hlength, db, hbody, rfl⟩ := ih.mp hd
      exact ⟨congrArg (· + 1) hlength, db, hbody, (List.append_assoc _ _ _).symm⟩
    · obtain ⟨params, body⟩ := d
      rintro ⟨hlength, db, hbody, rfl⟩
      obtain ⟨k, params, rfl⟩ := List.exists_cons_of_length_eq_add_one hlength
      refine ⟨k, k.encode, ⟨params, body⟩, params.flatMap Kind.encode ++ db, rfl, ?_, rfl, ?_⟩
      · exact ih.mpr ⟨Nat.succ.inj hlength, db, hbody, rfl⟩
      · exact List.append_assoc _ _ _

theorem exists_bodyFormat (count : Nat) : ∃ d e, bodyFormat count d e := by
  induction count with
  | zero => exact ⟨⟨[], .byte⟩, [0, 1], .byte, rfl, rfl⟩
  | succ count ih =>
    obtain ⟨d, e, hd⟩ := ih
    exact ⟨cons .star d, [0, 0] ++ e, .star, [0, 0], d, e, rfl, hd, rfl, rfl⟩

theorem describes_readBody (count : Nat) (input : List UInt8) :
    (bodyFormat count).Describes (readBody count input) := by
  induction count generalizing input with
  | zero => exact (Ty.describes_read input).map (mk [])
  | succ count ih =>
    exact .sequence cons Kind.isReadBy.prefixFree (exists_bodyFormat count)
      (Kind.describes_read input) fun kind => ih kind.rest

theorem not_format_nil (d : TypeDef) : ¬ format d [] :=
  isReadBy.not_of_error (by rw [read]) d

/-- The first byte is the number of parameters. -/
theorem format_cons_iff (count : UInt8) (d : TypeDef) (e : List UInt8) :
    format d (count :: e) ↔ bodyFormat count.toNat d e := by
  refine encode_iff.trans (Iff.trans ?_ bodyFormat_iff.symm)
  constructor
  · rintro ⟨hlength, db, hbody, heq⟩
    obtain ⟨rfl, rfl⟩ := List.cons.inj heq
    exact ⟨(UInt8.toNat_ofNat_of_lt' (Nat.lt_succ_of_le hlength)).symm, db, hbody, rfl⟩
  · rintro ⟨hlength, db, hbody, rfl⟩
    refine ⟨hlength ▸ Nat.le_of_lt_succ count.toNat_lt, db, hbody, ?_⟩
    rw [hlength, UInt8.ofNat_toNat]

theorem describes_read (input : List UInt8) : format.Describes (read input) := by
  cases input with
  | nil => exact isTruncated_nil (x := ⟨[], .byte⟩) (e := [0, 0, 1]) rfl not_format_nil
  | cons count rest =>
    exact (describes_readBody count.toNat rest).tagged not_format_nil (format_cons_iff count)

end TypeDef

/-! ## Terms -/

namespace Term

theorem not_format_nil (t : Term) : ¬ format t [] :=
  isReadBy.not_of_error (by rw [read]) t

theorem exists_format : ∃ t d, format t d :=
  ⟨var 0, [8], rfl⟩

theorem format_lam_iff (t : Ty) (body : Term) (e : List UInt8) :
    format (lam t body) e ↔
      ∃ d d', Ty.format t d ∧ format body d' ∧ e = 2 :: (d ++ d') :=
  encode_lam_iff

theorem format_app_iff (f a : Term) (e : List UInt8) :
    format (app f a) e ↔ ∃ d d', format f d ∧ format a d' ∧ e = 3 :: (d ++ d') :=
  encode_app_iff

theorem format_tlam_iff (k : Kind) (body : Term) (e : List UInt8) :
    format (tlam k body) e ↔
      ∃ d d', Kind.format k d ∧ format body d' ∧ e = 4 :: (d ++ d') :=
  encode_tlam_iff

theorem format_tapp_iff (f : Term) (t : Ty) (e : List UInt8) :
    format (tapp f t) e ↔
      ∃ d d', format f d ∧ Ty.format t d' ∧ e = 5 :: (d ++ d') :=
  encode_tapp_iff

/-- Every byte that is no tag stands for a variable. -/
theorem format_var {tag : UInt8} (h : firstTermVar ≤ tag.toNat) :
    format (var (tag.toNat - firstTermVar)) [tag] := by
  have hlt := tag.toNat_lt
  refine encode_var_iff.mpr ⟨by simp only [firstTermVar] at h ⊢; omega, ?_⟩
  rw [Nat.add_sub_cancel' h, UInt8.ofNat_toNat]

theorem describes_read (input : List UInt8) : format.Describes (read input) := by
  induction input using read.induct with
  | case1 =>
    rw [read]
    exact isTruncated_nil (x := var 0) (e := [8]) rfl not_format_nil
  | case2 rest =>
    have htag := fun t e => isReadBy.not_of_error (d := 0 :: e) (by rw [read]) t
    rw [read]
    exact isForeign_cons not_format_nil htag
  | case3 rest =>
    exact .taggedMap isReadBy not_format_nil (fun _ => by rw [read])
      (Address.format_iff_of_tag fun _ => rfl) (Address.describes_read rest)
  | case4 rest ihrest =>
    exact .taggedSequence isReadBy not_format_nil (fun _ => by rw [read]) format_lam_iff
      Ty.isReadBy exists_format (Ty.describes_read rest) ihrest
  | case5 rest ih ihrest =>
    exact .taggedSequence isReadBy not_format_nil (fun _ => by rw [read]) format_app_iff
      isReadBy exists_format ih ihrest
  | case6 rest ihrest =>
    exact .taggedSequence isReadBy not_format_nil (fun _ => by rw [read]) format_tlam_iff
      Kind.isReadBy exists_format (Kind.describes_read rest) ihrest
  | case7 rest ih =>
    exact .taggedSequence isReadBy not_format_nil (fun _ => by rw [read]) format_tapp_iff
      isReadBy Ty.exists_format ih fun f => Ty.describes_read f.rest
  | case8 rest =>
    exact .taggedMap isReadBy not_format_nil (fun _ => by rw [read])
      (Address.format_iff_of_tag fun _ => rfl) (Address.describes_read rest)
  | case9 rest =>
    exact .taggedMap isReadBy not_format_nil (fun _ => by rw [read])
      (Address.format_iff_of_tag fun _ => rfl) (Address.describes_read rest)
  | case10 rest tag h0 h1 h2 h3 h4 h5 h6 h7 =>
    -- none of the eight tags, so a variable
    have h : 4 ≤ tag.toNat :=
      next_tag_le (next_tag_le (next_tag_le (next_tag_le (Nat.zero_le _) h0) h1) h2) h3
    have htag : firstTermVar ≤ tag.toNat :=
      next_tag_le (next_tag_le (next_tag_le (next_tag_le h h4) h5) h6) h7
    rw [read_var htag]
    exact ⟨[tag], format_var htag, rfl⟩

end Term

/-! ## All four decoders -/

/-- A decoder accepts exactly the bytes of values, misses bytes exactly where some could follow, counts the
bytes behind a value, and finds anything else invalid. -/
theorem decode_exact :
    Exact (fun k => .ok (Kind.encode k)) .kind Kind.decode ∧ Exact Ty.encode .type Ty.decode ∧
    Exact TypeDef.encode .typeDef TypeDef.decode ∧ Exact Term.encode .term Term.decode :=
  ⟨.of_describes .kind Kind.not_format_nil Kind.isReadBy Kind.describes_read,
    .of_describes .type Ty.not_format_nil Ty.isReadBy Ty.describes_read,
    .of_describes .typeDef TypeDef.not_format_nil TypeDef.isReadBy TypeDef.describes_read,
    .of_describes .term Term.not_format_nil Term.isReadBy Term.describes_read⟩

end AddressedF
