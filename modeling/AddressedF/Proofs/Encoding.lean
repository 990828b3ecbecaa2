import AddressedF.Encoding.Term
import AddressedF.Proofs.Reading
import AddressedF.Proofs.Substitution

/-!
# Encoding without Loss

Kinds, types, type definitions and terms are read back from their bytes, whatever follows them.  Variables are
the only things without an encoding, and then only those that do not fit into the byte they share with the
tags; of a type definition also the number of parameters has to fit into a byte.

## Main Definitions

* `Ty.Encodable`, `TypeDef.Encodable`, `Term.Encodable`: everything that has to fit into a byte does

## Main Results

* `Kind.returns_read`, `Ty.returns_read`, `TypeDef.returns_read`, `Term.returns_read`: values are read back
* `encode_lossless`: the four encodings lose nothing
-/

namespace AddressedF

/-- The type variables in the types of a term. -/
def Term.typeIndices : Term → List Nat
  | .var _ | .ref _ | .pack _ | .unpack _ => []
  | .app f a => f.typeIndices ++ a.typeIndices
  | .lam t body => t.indices ++ body.typeIndices
  | .tapp f t => f.typeIndices ++ t.indices
  | .tlam _ body => body.typeIndices

/-- The term variables of a term. -/
def Term.indices : Term → List Nat
  | .var i => [i]
  | .ref _ | .pack _ | .unpack _ => []
  | .app f a => f.indices ++ a.indices
  | .lam _ body | .tlam _ body => body.indices
  | .tapp f _ => f.indices

/-- Four bytes are no type variables. -/
def Ty.Encodable (t : Ty) : Prop :=
  ∀ i ∈ t.indices, i ≤ 251

/-- The parameters are counted by a byte. -/
def TypeDef.Encodable (d : TypeDef) : Prop :=
  d.params.length ≤ 255 ∧ d.body.Encodable

/-- Eight bytes are no term variables. -/
def Term.Encodable (t : Term) : Prop :=
  (∀ i ∈ t.typeIndices, i ≤ 251) ∧ ∀ i ∈ t.indices, i ≤ 247

/-! ## Two parts after a tag -/

theorem encode_pair_iff {r r' : Except EncodeError (List UInt8)} {tag : UInt8} {e : List UInt8} :
    (do let d ← r; let d' ← r'; return tag :: d ++ d') = .ok e ↔
      ∃ d d', r = .ok d ∧ r' = .ok d' ∧ e = tag :: (d ++ d') := by
  rw [bind_eq_ok_iff]
  constructor
  · rintro ⟨d, hd, h⟩
    obtain ⟨d', hd', he⟩ := bind_eq_ok_iff.mp h
    exact ⟨d, d', hd, hd', (pure_eq_ok_iff.mp he).symm⟩
  · rintro ⟨d, d', hd, hd', rfl⟩
    exact ⟨d, hd, bind_eq_ok_iff.mpr ⟨d', hd', rfl⟩⟩

theorem exists_encode_pair_iff {r r' : Except EncodeError (List UInt8)} {tag : UInt8} :
    (∃ e, (do let d ← r; let d' ← r'; return tag :: d ++ d') = .ok e) ↔
      (∃ d, r = .ok d) ∧ ∃ d', r' = .ok d' := by
  simp only [encode_pair_iff]
  constructor
  · rintro ⟨_, d, d', hd, hd', -⟩
    exact ⟨⟨d, hd⟩, d', hd'⟩
  · rintro ⟨⟨d, hd⟩, d', hd'⟩
    exact ⟨_, d, d', hd, hd', rfl⟩

/-! ## Formats -/

/-- The bytes of kinds. -/
def Kind.format : Format Kind :=
  .of fun k => .ok k.encode

/-- The bytes of addresses. -/
def Address.format : Format Address :=
  .of fun a => .ok a.toList

/-- The bytes of types. -/
def Ty.format : Format Ty :=
  .of Ty.encode

/-- The bytes of type definitions. -/
def TypeDef.format : Format TypeDef :=
  .of TypeDef.encode

/-- The bytes of terms. -/
def Term.format : Format Term :=
  .of Term.encode

/-! ## Kinds and addresses -/

theorem Kind.returns_read (k : Kind) (rest : List UInt8) :
    Returns (read (k.encode ++ rest)) k rest := by
  induction k generalizing rest with
  | star =>
    show Returns (read (0 :: 0 :: rest)) _ _
    rw [read]
    rfl
  | arrow domain codomain ihd ihc =>
    show Returns (read (1 :: (domain.encode ++ codomain.encode) ++ rest)) _ _
    rw [List.cons_append, List.append_assoc, read]
    exact .taggedSequence 1 arrow (ihd _) (ihc rest)

theorem Address.returns_read (a : Address) (rest : List UInt8) :
    Returns (read (a.toList ++ rest)) a rest := by
  have hlength : 32 ≤ (a.toList ++ rest).length := by
    rw [List.length_append, length_toList]
    exact Nat.le_add_right _ _
  have htake : (a.toList ++ rest).take 32 = a.toList := by
    rw [← a.length_toList, List.take_left]
  have hdrop : (a.toList ++ rest).drop 32 = rest := by
    rw [← a.length_toList, List.drop_left]
  rw [read, dif_pos hlength]
  refine Returns.iff_exists.mpr ⟨_, rfl, ?_, hdrop⟩
  obtain ⟨⟨bytes, hsize⟩⟩ := a
  simp only [htake]
  rfl

theorem Kind.isReadBy : Kind.format.IsReadBy Kind.read := by
  rintro k _ rest ⟨⟩
  exact k.returns_read rest

theorem Address.isReadBy : Address.format.IsReadBy Address.read := by
  rintro a _ rest ⟨⟩
  exact a.returns_read rest

/-! ## Types -/

namespace Ty

theorem encode_var_iff {i : Nat} {e : List UInt8} :
    (var i).encode = .ok e ↔ i ≤ 251 ∧ e = [UInt8.ofNat (firstTypeVar + i)] := by
  show (if i ≤ 251 then _ else _) = _ ↔ _
  split
  · rename_i hi
    simp [hi, eq_comm]
  · rename_i hi
    simp [hi]

theorem encode_app_iff {f a : Ty} {e : List UInt8} :
    (app f a).encode = .ok e ↔ ∃ d d', f.encode = .ok d ∧ a.encode = .ok d' ∧ e = 2 :: (d ++ d') :=
  encode_pair_iff

theorem encode_all_iff {k : Kind} {body : Ty} {e : List UInt8} :
    (all k body).encode = .ok e ↔
      ∃ d d', .ok k.encode = (.ok d : Except EncodeError _) ∧ body.encode = .ok d' ∧
        e = 3 :: (d ++ d') :=
  encode_pair_iff (r := .ok k.encode)

theorem encodable_iff (t : Ty) : (∃ e, t.encode = .ok e) ↔ t.Encodable := by
  induction t with
  | con c => exact ⟨fun _ _ h => (nomatch h), fun _ => ⟨_, rfl⟩⟩
  | ref address => exact ⟨fun _ _ h => (nomatch h), fun _ => ⟨_, rfl⟩⟩
  | var i => simp [encode_var_iff, Encodable, indices]
  | app f a ihf iha =>
    refine exists_encode_pair_iff.trans ?_
    rw [ihf, iha, Encodable, Encodable, Encodable, indices, List.forall_mem_append]
  | all k body ih =>
    refine (exists_encode_pair_iff (r := .ok k.encode)).trans ?_
    rw [ih]
    exact and_iff_right ⟨_, rfl⟩

/-- A byte after the tags is a variable. -/
theorem read_var {tag : UInt8} (h : firstTypeVar ≤ tag.toNat) (rest : List UInt8) :
    read (tag :: rest) = .ok (Parsed.single (var (tag.toNat - firstTypeVar)) tag rest) := by
  rw [read] <;> rintro rfl <;> exact absurd h (by decide)

theorem returns_read {t : Ty} {d : List UInt8} (rest : List UInt8) (h : t.encode = .ok d) :
    Returns (read (d ++ rest)) t rest := by
  induction t generalizing d rest with
  | con c =>
    cases h
    cases c <;>
    · show Returns (read (0 :: _ :: rest)) _ _
      rw [TyCon.code, read]
      rfl
  | ref address =>
    cases h
    rw [List.cons_append, read]
    exact (address.returns_read rest).taggedMap 1 ref
  | var i =>
    obtain ⟨hi, rfl⟩ := encode_var_iff.mp h
    have htag : (UInt8.ofNat (firstTypeVar + i)).toNat = firstTypeVar + i :=
      UInt8.toNat_ofNat_of_lt' (by simp only [firstTypeVar, UInt8.size]; omega)
    rw [List.singleton_append, read_var (by omega), htag, Nat.add_sub_cancel_left]
    rfl
  | app f a ihf iha =>
    obtain ⟨df, da, hf, ha, rfl⟩ := encode_app_iff.mp h
    rw [List.cons_append, List.append_assoc, read]
    exact .taggedSequence 2 app (ihf _ hf) (iha rest ha)
  | all k body ih =>
    obtain ⟨_, db, ⟨⟩, hbody, rfl⟩ := encode_all_iff.mp h
    rw [List.cons_append, List.append_assoc, read]
    exact .taggedSequence 3 all (k.returns_read _) (ih rest hbody)

theorem isReadBy : format.IsReadBy read :=
  fun _ _ rest h => returns_read rest h

end Ty

/-! ## Type definitions -/

namespace TypeDef

theorem encode_iff {d : TypeDef} {e : List UInt8} :
    d.encode = .ok e ↔ d.params.length ≤ 255 ∧ ∃ db, d.body.encode = .ok db ∧
      e = UInt8.ofNat d.params.length :: (d.params.flatMap Kind.encode ++ db) := by
  show (if d.params.length ≤ 255 then _ else _) = _ ↔ _
  split
  · rename_i hlength
    rw [bind_eq_ok_iff]
    constructor
    · rintro ⟨db, hbody, he⟩
      exact ⟨hlength, db, hbody, (pure_eq_ok_iff.mp he).symm⟩
    · rintro ⟨-, db, hbody, rfl⟩
      exact ⟨db, hbody, rfl⟩
  · rename_i hlength
    simp [hlength]

theorem encodable_iff (d : TypeDef) : (∃ e, d.encode = .ok e) ↔ d.Encodable := by
  simp only [encode_iff, Encodable, ← Ty.encodable_iff]
  constructor
  · rintro ⟨_, hlength, db, hbody, -⟩
    exact ⟨hlength, db, hbody⟩
  · rintro ⟨hlength, db, hbody⟩
    exact ⟨_, hlength, db, hbody, rfl⟩

/-- A definition with one more parameter, outside of the others. -/
def cons (k : Kind) (d : TypeDef) : TypeDef :=
  ⟨k :: d.params, d.body⟩

/-- Parameters are read one by one, from the first. -/
theorem returns_readBody {params : List Kind} {body : Ty} {db : List UInt8} (rest : List UInt8)
    (h : body.encode = .ok db) :
    Returns (readBody params.length (params.flatMap Kind.encode ++ (db ++ rest))) ⟨params, body⟩
      rest := by
  induction params with
  | nil => exact (Ty.returns_read rest h).map (mk [])
  | cons k params ih =>
    rw [List.flatMap_cons, List.append_assoc, List.length_cons, readBody]
    exact (k.returns_read _).sequence cons ih

theorem returns_read {d : TypeDef} {e : List UInt8} (rest : List UInt8) (h : d.encode = .ok e) :
    Returns (read (e ++ rest)) d rest := by
  obtain ⟨hlength, db, hbody, rfl⟩ := encode_iff.mp h
  have hcount : (UInt8.ofNat d.params.length).toNat = d.params.length :=
    UInt8.toNat_ofNat_of_lt' (Nat.lt_succ_of_le hlength)
  rw [List.cons_append, List.append_assoc, read, hcount]
  exact (returns_readBody rest hbody).tagged _

theorem isReadBy : format.IsReadBy read :=
  fun _ _ rest h => returns_read rest h

end TypeDef

/-! ## Terms -/

namespace Term

theorem encode_var_iff {i : Nat} {e : List UInt8} :
    (var i).encode = .ok e ↔ i ≤ 247 ∧ e = [UInt8.ofNat (firstTermVar + i)] := by
  show (if i ≤ 247 then _ else _) = _ ↔ _
  split
  · rename_i hi
    simp [hi, eq_comm]
  · rename_i hi
    simp [hi]

theorem encode_lam_iff {t : Ty} {body : Term} {e : List UInt8} :
    (lam t body).encode = .ok e ↔
      ∃ d d', t.encode = .ok d ∧ body.encode = .ok d' ∧ e = 2 :: (d ++ d') :=
  encode_pair_iff

theorem encode_app_iff {f a : Term} {e : List UInt8} :
    (app f a).encode = .ok e ↔ ∃ d d', f.encode = .ok d ∧ a.encode = .ok d' ∧ e = 3 :: (d ++ d') :=
  encode_pair_iff

theorem encode_tlam_iff {k : Kind} {body : Term} {e : List UInt8} :
    (tlam k body).encode = .ok e ↔
      ∃ d d', .ok k.encode = (.ok d : Except EncodeError _) ∧ body.encode = .ok d' ∧
        e = 4 :: (d ++ d') :=
  encode_pair_iff (r := .ok k.encode)

theorem encode_tapp_iff {f : Term} {t : Ty} {e : List UInt8} :
    (tapp f t).encode = .ok e ↔
      ∃ d d', f.encode = .ok d ∧ t.encode = .ok d' ∧ e = 5 :: (d ++ d') :=
  encode_pair_iff

theorem encodable_iff (t : Term) : (∃ e, t.encode = .ok e) ↔ t.Encodable := by
  induction t with
  | ref address | pack address | unpack address =>
    exact ⟨fun _ => ⟨fun _ h => (nomatch h), fun _ h => (nomatch h)⟩, fun _ => ⟨_, rfl⟩⟩
  | var i => simp [encode_var_iff, Encodable, typeIndices, indices]
  | app f a ihf iha =>
    refine exists_encode_pair_iff.trans ?_
    simp only [ihf, iha, Encodable, typeIndices, indices, List.forall_mem_append]
    exact and_and_and_comm
  | lam t body ih =>
    refine exists_encode_pair_iff.trans ?_
    simp only [t.encodable_iff, ih, Ty.Encodable, Encodable, typeIndices, indices,
      List.forall_mem_append]
    exact and_assoc.symm
  | tapp f t ih =>
    refine exists_encode_pair_iff.trans ?_
    simp only [t.encodable_iff, ih, Ty.Encodable, Encodable, typeIndices, indices,
      List.forall_mem_append]
    exact and_right_comm
  | tlam k body ih =>
    refine (exists_encode_pair_iff (r := .ok k.encode)).trans ?_
    rw [ih]
    exact and_iff_right ⟨_, rfl⟩

/-- A byte after the tags is a variable. -/
theorem read_var {tag : UInt8} (h : firstTermVar ≤ tag.toNat) (rest : List UInt8) :
    read (tag :: rest) = .ok (Parsed.single (var (tag.toNat - firstTermVar)) tag rest) := by
  rw [read] <;> rintro rfl <;> exact absurd h (by decide)

theorem returns_read {t : Term} {d : List UInt8} (rest : List UInt8) (h : t.encode = .ok d) :
    Returns (read (d ++ rest)) t rest := by
  induction t generalizing d rest with
  | var i =>
    obtain ⟨hi, rfl⟩ := encode_var_iff.mp h
    have htag : (UInt8.ofNat (firstTermVar + i)).toNat = firstTermVar + i :=
      UInt8.toNat_ofNat_of_lt' (by simp only [firstTermVar, UInt8.size]; omega)
    rw [List.singleton_append, read_var (by omega), htag, Nat.add_sub_cancel_left]
    rfl
  | ref address =>
    cases h
    rw [List.cons_append, read]
    exact (address.returns_read rest).taggedMap 1 ref
  | lam t body ih =>
    obtain ⟨dt, db, ht, hbody, rfl⟩ := encode_lam_iff.mp h
    rw [List.cons_append, List.append_assoc, read]
    exact .taggedSequence 2 lam (Ty.returns_read _ ht) (ih rest hbody)
  | app f a ihf iha =>
    obtain ⟨df, da, hf, ha, rfl⟩ := encode_app_iff.mp h
    rw [List.cons_append, List.append_assoc, read]
    exact .taggedSequence 3 app (ihf _ hf) (iha rest ha)
  | tlam k body ih =>
    obtain ⟨_, db, ⟨⟩, hbody, rfl⟩ := encode_tlam_iff.mp h
    rw [List.cons_append, List.append_assoc, read]
    exact .taggedSequence 4 tlam (k.returns_read _) (ih rest hbody)
  | tapp f t ih =>
    obtain ⟨df, dt, hf, ht, rfl⟩ := encode_tapp_iff.mp h
    rw [List.cons_append, List.append_assoc, read]
    exact .taggedSequence 5 tapp (ih _ hf) (Ty.returns_read rest ht)
  | pack address =>
    cases h
    rw [List.cons_append, read]
    exact (address.returns_read rest).taggedMap 6 pack
  | unpack address =>
    cases h
    rw [List.cons_append, read]
    exact (address.returns_read rest).taggedMap 7 unpack

theorem isReadBy : format.IsReadBy read :=
  fun _ _ rest h => returns_read rest h

end Term

/-! ## All four encodings -/

/-- Kinds, types, type definitions and terms are encodable exactly as far as their variables and numbers of
parameters fit into bytes, and are then read back from their bytes, whatever follows. -/
theorem encode_lossless :
    Lossless (fun k => .ok (Kind.encode k)) (fun _ => True) Kind.read Kind.decode ∧
    Lossless Ty.encode Ty.Encodable Ty.read Ty.decode ∧
    Lossless TypeDef.encode TypeDef.Encodable TypeDef.read TypeDef.decode ∧
    Lossless Term.encode Term.Encodable Term.read Term.decode := by
  refine ⟨.of_isReadBy .kind (fun k => ⟨fun _ => trivial, fun _ => ⟨_, rfl⟩⟩) Kind.isReadBy,
    .of_isReadBy .type Ty.encodable_iff Ty.isReadBy,
    .of_isReadBy .typeDef TypeDef.encodable_iff TypeDef.isReadBy,
    .of_isReadBy .term Term.encodable_iff Term.isReadBy⟩

end AddressedF
