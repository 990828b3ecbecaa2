import AddressedF.Proofs.Checked
import AddressedF.Proofs.Decoding
import AddressedF.Proofs.References
import AddressedF.Storage.Basic

/-!
# Definitions of Both Spaces

Types and terms are defined, stored and loaded in the same way, in two spaces.  What is said here of a
definition holds in either.

## Main Definitions

* `Key`, `Definition`, `Entry`: what is looked up, what is stored there, and what is known of it
* `Definition.mentions`: the keys that have to be known before a definition can be checked
* `Signature.check`, `Signature.record`: checking a definition, and recording it under an address
* `Signature.Intact`: each entry has its own address, was rightly checked and mentions only what is known

## Main Results

* `Signature.confined_check`: a check reads only what the definition mentions
* `Signature.check_congr`: so it has the same result wherever that is the same
* `Signature.exists_entry_of_check`: a definition that checks mentions only what is known
* `Signature.Intact.record`: recording a checked definition under its own address does no harm
-/

namespace AddressedF

/-- An address in one of the two spaces. -/
abbrev Key := Space × Address

/-- What is stored under a key. -/
inductive Definition where
  | type (definition : TypeDef)
  | term (term : Term)

/-- What is known under a key. -/
inductive Entry where
  | type (entry : TypeEntry)
  | term (entry : TermEntry)

/-- The definition without its kind or type. -/
def Entry.definition : Entry → Definition
  | type e => .type e.definition
  | term e => .term e.term

namespace Definition

/-- The space of a definition. -/
def space : Definition → Space
  | type _ => .type
  | term _ => .term

/-- The addresses that a definition mentions. -/
def references : Definition → References
  | type d => ⟨[], d.references⟩
  | term t => t.references

/-- The keys that a definition mentions. -/
def mentions (d : Definition) : List Key :=
  d.references.types.map (.type, ·) ++ d.references.terms.map (.term, ·)

/-- The bytes of a definition. -/
def encode : Definition → Except EncodeError (List UInt8)
  | type d => d.encode
  | term t => t.encode

/-- Reads a definition of a space. -/
def decode (input : List UInt8) : Space → Except DecodeError Definition
  | .type => (TypeDef.decode input).map type
  | .term => (Term.decode input).map term

variable {d d' : Definition} {a : Address} {bytes : List UInt8} {space : Space}

theorem mem_mentions_type : (.type, a) ∈ d.mentions ↔ a ∈ d.references.types := by
  simp [mentions]

theorem mem_mentions_term : (.term, a) ∈ d.mentions ↔ a ∈ d.references.terms := by
  simp [mentions]

/-- What is read is what was written. -/
theorem decode_eq_ok_iff : decode bytes space = .ok d ↔ d.space = space ∧ d.encode = .ok bytes := by
  have htype := (Exact.of_describes .typeDef TypeDef.not_format_nil TypeDef.isReadBy
    TypeDef.describes_read).ok_iff
  have hterm := (Exact.of_describes .term Term.not_format_nil Term.isReadBy Term.describes_read).ok_iff
  cases space with
  | type =>
    constructor
    · intro h
      obtain ⟨d, hd, rfl⟩ := map_eq_ok_iff.mp h
      exact ⟨rfl, (htype bytes d).mp hd⟩
    · rintro ⟨hspace, hencode⟩
      cases d with
      | term t => cases hspace
      | type d => exact map_eq_ok_iff.mpr ⟨d, (htype bytes d).mpr hencode, rfl⟩
  | term =>
    constructor
    · intro h
      obtain ⟨t, ht, rfl⟩ := map_eq_ok_iff.mp h
      exact ⟨rfl, (hterm bytes t).mp ht⟩
    · rintro ⟨hspace, hencode⟩
      cases d with
      | type d => cases hspace
      | term t => exact map_eq_ok_iff.mpr ⟨t, (hterm bytes t).mpr hencode, rfl⟩

/-- Definitions of one space with the same bytes are the same. -/
theorem eq_of_encode (hspace : d.space = d'.space) (h : d.encode = .ok bytes)
    (h' : d'.encode = .ok bytes) : d = d' := by
  have hd := decode_eq_ok_iff.mpr ⟨hspace, h⟩
  rw [decode_eq_ok_iff.mpr ⟨rfl, h'⟩] at hd
  exact (Except.ok.inj hd).symm

end Definition

/-! ## Entries -/

namespace Signature

/-- What is known under a key. -/
def find? (sig : Signature) : Key → Option Entry
  | (.type, a) => (sig.types.get? a).map .type
  | (.term, a) => (sig.terms.get? a).map .term

/-- The entry of a definition: the definition with the kind or the type that it is found to have. -/
def check (sig : Signature) : Definition → Except TypeError Entry
  | .type d => (sig.kindOfDef d).map fun k => .type ⟨d, k⟩
  | .term t => (sig.typeOf .empty t).map fun T => .term ⟨t, T⟩

/-- Records an entry, unless its key has one. -/
def record (sig : Signature) (a : Address) : Entry → Signature
  | .type e => sig.addType a e.definition e.kind
  | .term e => sig.addTerm a e.term e.type

/-- Every entry is the definition that its address is the digest of, with the kind or type that the signature
gives it, and whatever it mentions has an entry in its space. -/
structure Intact (sig : Signature) : Prop where
  address_eq : ∀ {x e}, sig.find? x = some e →
    ∃ bytes, e.definition.encode = .ok bytes ∧ Address.ofContent bytes = x.2
  check_eq : ∀ {x e}, sig.find? x = some e → sig.check e.definition = .ok e
  exists_entry : ∀ {x e}, sig.find? x = some e → ∀ y ∈ e.definition.mentions, ∃ e', sig.find? y = some e'

variable {sig sig' full : Signature} {d : Definition} {e e' : Entry} {x y : Key} {a : Address}
  {err : TypeError} {bytes : List UInt8}

theorem find?_type_eq_some_iff {e : TypeEntry} :
    sig.find? (.type, a) = some (.type e) ↔ sig.types.get? a = some e := by
  simp [find?]

theorem find?_term_eq_some_iff {e : TermEntry} :
    sig.find? (.term, a) = some (.term e) ↔ sig.terms.get? a = some e := by
  simp [find?]

theorem space_of_find? (h : sig.find? x = some e) : e.definition.space = x.1 := by
  obtain ⟨space, a⟩ := x
  cases space with
  | type =>
    obtain ⟨e, -, rfl⟩ := Option.map_eq_some_iff.mp h
    rfl
  | term =>
    obtain ⟨e, -, rfl⟩ := Option.map_eq_some_iff.mp h
    rfl

theorem definition_of_check (h : sig.check d = .ok e) : e.definition = d := by
  cases d with
  | type d =>
    obtain ⟨k, -, rfl⟩ := map_eq_ok_iff.mp h
    rfl
  | term t =>
    obtain ⟨T, -, rfl⟩ := map_eq_ok_iff.mp h
    rfl

/-- The check of a definition reads only what the definition mentions. -/
theorem confined_check (d : Definition) : Confined d.references fun sig => sig.check d := by
  cases d with
  | type d => exact (confined_kindOfDef d).map fun k => Entry.type ⟨d, k⟩
  | term t => exact (confined_typeOf .empty t).map fun T => Entry.term ⟨t, T⟩

theorem check_congr (h : ∀ y ∈ d.mentions, sig.find? y = sig'.find? y) : sig.check d = sig'.check d := by
  refine (confined_check d).eq_of_agrees ⟨?_, ?_⟩
  · intro a ha
    have hterm := Option.map_injective (fun _ _ => Entry.term.inj) (h _ (Definition.mem_mentions_term.mpr ha))
    exact congrArg (Option.map TermEntry.type) hterm
  · intro a ha
    exact Option.map_injective (fun _ _ => Entry.type.inj) (h _ (Definition.mem_mentions_type.mpr ha))

theorem exists_entry_of_check (h : sig.check d = .ok e) (hy : y ∈ d.mentions) :
    ∃ e', sig.find? y = some e' := by
  have hknows := (confined_check d).knows h
  obtain ⟨space, a⟩ := y
  cases space with
  | type =>
    obtain ⟨e', he'⟩ := hknows.type a (Definition.mem_mentions_type.mp hy)
    exact ⟨.type e', find?_type_eq_some_iff.mpr he'⟩
  | term =>
    obtain ⟨e', he'⟩ := hknows.term a (Definition.mem_mentions_term.mp hy)
    exact ⟨.term e', find?_term_eq_some_iff.mpr he'⟩

theorem find?_empty (x : Key) : Signature.empty.find? x = none := by
  obtain ⟨space, a⟩ := x
  cases space <;> rfl

/-! ## Larger signatures -/

theorem Sub.find? (h : sig.Sub full) (hx : sig.find? x = some e) : full.find? x = some e := by
  obtain ⟨space, a⟩ := x
  cases space with
  | type =>
    obtain ⟨e, he, rfl⟩ := Option.map_eq_some_iff.mp hx
    exact find?_type_eq_some_iff.mpr (h.types he)
  | term =>
    obtain ⟨e, he, rfl⟩ := Option.map_eq_some_iff.mp hx
    exact find?_term_eq_some_iff.mpr (h.terms he)

theorem Sub.of_find? (h : ∀ x e, sig.find? x = some e → full.find? x = some e) : sig.Sub full := by
  constructor
  · intro a e he
    exact find?_type_eq_some_iff.mp (h _ _ (find?_type_eq_some_iff.mpr he))
  · intro a e he
    exact find?_term_eq_some_iff.mp (h _ _ (find?_term_eq_some_iff.mpr he))

theorem Sub.of_empty (full : Signature) : Signature.empty.Sub full := by
  refine .of_find? ?_
  intro x e he
  cases (find?_empty x).symm.trans he

/-- A definition that checks does so with the same result when more is known. -/
theorem Sub.check (h : sig.Sub full) (hd : sig.check d = .ok e) : full.check d = .ok e := by
  rw [← hd]
  refine check_congr ?_
  intro y hy
  obtain ⟨e', he'⟩ := exists_entry_of_check hd hy
  rw [h.find? he', he']

theorem find?_record (sig : Signature) (a : Address) (e : Entry) (x : Key) :
    (sig.record a e).find? x =
      if x = (e.definition.space, a) then some ((sig.find? x).getD e) else sig.find? x := by
  obtain ⟨space, b⟩ := x
  cases e with
  | type e =>
    cases space with
    | type =>
      show ((sig.types.insertIfNew a e).get? b).map Entry.type = _
      rw [Table.get?_insertIfNew]
      by_cases h : b = a
      · subst h
        simp only [Entry.definition, Definition.space, if_true, find?]
        cases sig.types.get? b <;> rfl
      · simp [h, Entry.definition, Definition.space, find?]
    | term => simp [Entry.definition, Definition.space, record, addType, find?]
  | term e =>
    cases space with
    | type => simp [Entry.definition, Definition.space, record, addTerm, find?]
    | term =>
      show ((sig.terms.insertIfNew a e).get? b).map Entry.term = _
      rw [Table.get?_insertIfNew]
      by_cases h : b = a
      · subst h
        simp only [Entry.definition, Definition.space, if_true, find?]
        cases sig.terms.get? b <;> rfl
      · simp [h, Entry.definition, Definition.space, find?]

theorem Sub.record (sig : Signature) (a : Address) (e : Entry) : sig.Sub (sig.record a e) := by
  cases e with
  | type e => exact .addType sig a e.definition e.kind
  | term e => exact .addTerm sig a e.term e.type

/-- A new entry is the one under its key that was recorded. -/
theorem eq_of_find?_record (h : (sig.record a e).find? x = some e') (hnew : sig.find? x ≠ some e') :
    x = (e.definition.space, a) ∧ sig.find? x = none ∧ e' = e := by
  rw [find?_record] at h
  split at h
  · rename_i hx
    cases hold : sig.find? x with
    | none =>
      rw [hold] at h
      exact ⟨hx, rfl, (Option.some.inj h).symm⟩
    | some e₀ =>
      rw [hold] at h
      exact absurd (hold.trans h) hnew
  · exact absurd h hnew

theorem exists_find?_record (sig : Signature) (a : Address) (e : Entry) :
    ∃ e', (sig.record a e).find? (e.definition.space, a) = some e' := by
  rw [find?_record, if_pos rfl]
  exact ⟨_, rfl⟩

theorem find?_record_self (h : sig.find? (e.definition.space, a) = none) :
    (sig.record a e).find? (e.definition.space, a) = some e := by
  rw [find?_record, if_pos rfl, h, Option.getD_none]

/-- A signature that is filled with checked entries is a checked one. -/
theorem Checked.record (hsig : sig.Checked) (a : Address) (h : sig.check d = .ok e) :
    (sig.record a e).Checked := by
  cases d with
  | type d =>
    obtain ⟨k, hk, rfl⟩ := map_eq_ok_iff.mp h
    exact .addType a hsig hk
  | term t =>
    obtain ⟨T, hT, rfl⟩ := map_eq_ok_iff.mp h
    exact .addTerm a hsig hT

/-! ## Intact signatures -/

namespace Intact

theorem empty : Signature.empty.Intact := by
  constructor <;>
  · intro x e he
    cases (find?_empty x).symm.trans he

/-- A definition may be recorded under the digest of its bytes once it checks. -/
theorem record (hsig : sig.Intact) (hencode : d.encode = .ok bytes) (haddress : Address.ofContent bytes = a)
    (hcheck : sig.check d = .ok e) : (sig.record a e).Intact := by
  have hsub := Sub.record sig a e
  have hd := definition_of_check hcheck
  -- an entry is an old one, or the new one under the new key
  have hcases : ∀ {x e'}, (sig.record a e).find? x = some e' →
      sig.find? x = some e' ∨ x = (d.space, a) ∧ e' = e := by
    intro x e' he'
    by_cases hold : sig.find? x = some e'
    · exact .inl hold
    · obtain ⟨hx, -, rfl⟩ := eq_of_find?_record he' hold
      exact .inr ⟨hd ▸ hx, rfl⟩
  constructor
  · intro x e' he'
    rcases hcases he' with hold | ⟨rfl, rfl⟩
    · exact hsig.address_eq hold
    · exact ⟨bytes, hd ▸ hencode, haddress⟩
  · intro x e' he'
    rcases hcases he' with hold | ⟨rfl, rfl⟩
    · exact hsub.check (hsig.check_eq hold)
    · exact hsub.check (hd ▸ hcheck)
  · intro x e' he' y hy
    rcases hcases he' with hold | ⟨rfl, rfl⟩
    · obtain ⟨e'', he''⟩ := hsig.exists_entry hold y hy
      exact ⟨e'', hsub.find? he''⟩
    · obtain ⟨e'', he''⟩ := exists_entry_of_check (hd ▸ hcheck) hy
      exact ⟨e'', hsub.find? he''⟩

end Intact

end Signature

end AddressedF
