import AddressedF.Proofs.Typing

/-!
# Checked Signatures

A signature itself checks nothing.  One that was filled with care, each definition being checked against those
that were there before it, is sound.

## Main Definitions

* `Signature.Checked`: signatures that were filled with care
* `Signature.Sub`: a signature all of whose entries another one has too
* `Signature.nesting`: the quantifiers of all definitions together

## Main Results

* `Signature.Checked.induction_new`: induction over the definitions that are new
* `Signature.Checked.sound`: every type in a checked signature has the right kind

## Design Notes

The type of a term may have as many nested quantifiers as the term and the terms it refers to have together,
so the definitions of a signature share the range of indices.  A signature for which that range is too small
has more than `maxIndex` type abstractions, quantifiers and parameters, more than there are addresses of
memory.  Its shifts would stop at the end of the range, where different variables become the same.
-/

namespace AddressedF

namespace Table

variable {κ α : Type} [DecidableEq κ]

theorem insertIfNew_of_some {t : Table κ α} {key : κ} (h : t.get? key ≠ none) (value : α) :
    t.insertIfNew key value = t :=
  dif_neg h

theorem entries_insertIfNew_of_none {t : Table κ α} {key : κ} (h : t.get? key = none) (value : α) :
    (t.insertIfNew key value).entries = (key, value) :: t.entries := by
  rw [insertIfNew, dif_pos h]

/-- What a new entry leaves of the view of a table. -/
theorem get?_insertIfNew_of_none {t : Table κ α} {key : κ} (h : t.get? key = none) (key' : κ) (value : α) :
    (t.insertIfNew key value).get? key' = if key' = key then some value else t.get? key' := by
  rw [get?_insertIfNew, h, Option.getD_none]

end Table

namespace Signature

/-- Each definition was checked against the ones before it, and was recorded with the kind or the type that
was found. -/
inductive Checked : Signature → Prop where
  | empty : Checked .empty
  | addType {sig : Signature} {d : TypeDef} {k : Kind} (address : Address) :
    Checked sig → sig.kindOfDef d = .ok k → Checked (sig.addType address d k)
  | addTerm {sig : Signature} {t : Term} {T : Ty} (address : Address) :
    Checked sig → sig.typeOf .empty t = .ok T → Checked (sig.addTerm address t T)

/-- Every entry of `sig` is an entry of `full`. -/
structure Sub (sig full : Signature) : Prop where
  types : ∀ {address e}, sig.types.get? address = some e → full.types.get? address = some e
  terms : ∀ {address e}, sig.terms.get? address = some e → full.terms.get? address = some e

/-- The quantifiers, parameters and type abstractions of all definitions. -/
def nesting (sig : Signature) : Nat :=
  sig.types.entries.foldr (fun p n => p.2.definition.nesting + n) 0 +
    sig.terms.entries.foldr (fun p n => p.2.term.nesting + n) 0

variable {sig full : Signature} {address : Address} {d : TypeDef} {k : Kind} {t : Term} {T : Ty}

namespace Sub

theorem refl (sig : Signature) : sig.Sub sig := ⟨id, id⟩

theorem trans {mid : Signature} (h : sig.Sub mid) (h' : mid.Sub full) : sig.Sub full :=
  ⟨h'.types ∘ h.types, h'.terms ∘ h.terms⟩

theorem addType (sig : Signature) (address : Address) (d : TypeDef) (k : Kind) :
    sig.Sub (sig.addType address d k) :=
  ⟨Table.get?_insertIfNew_of_some, id⟩

theorem addTerm (sig : Signature) (address : Address) (t : Term) (T : Ty) :
    sig.Sub (sig.addTerm address t T) :=
  ⟨id, Table.get?_insertIfNew_of_some⟩

theorem kindAt? (h : sig.Sub full) (address : Address) (k : Kind) (hk : sig.kindAt? address = some k) :
    full.kindAt? address = some k := by
  obtain ⟨e, he, rfl⟩ := Option.map_eq_some_iff.mp hk
  exact Option.map_eq_some_iff.mpr ⟨e, h.types he, rfl⟩

/-- A kind found with fewer definitions is found with more. -/
theorem kindOf (h : sig.Sub full) {ks : List Kind} {a : Ty} (hk : sig.kindOf ks a = .ok k) :
    full.kindOf ks a = .ok k :=
  kindOf_mono h.kindAt? (fun _ _ => id) hk

end Sub

theorem kindOfDef_eq_ok_iff :
    sig.kindOfDef d = .ok k ↔ sig.kindOf d.params.reverse d.body = .ok .star ∧ k = d.kind := by
  rw [kindOfDef, bind_eq_ok_iff]
  constructor
  · rintro ⟨_, hbody, hk⟩
    exact ⟨checkKind_eq_ok_iff.mp hbody, (pure_eq_ok_iff.mp hk).symm⟩
  · rintro ⟨hbody, rfl⟩
    exact ⟨(), checkKind_eq_ok_iff.mpr hbody, rfl⟩

/-! ## One more definition -/

theorem addType_of_some (h : sig.types.get? address ≠ none) (d : TypeDef) (k : Kind) :
    sig.addType address d k = sig := by
  rw [Signature.addType, Table.insertIfNew_of_some h]

theorem addTerm_of_some (h : sig.terms.get? address ≠ none) (t : Term) (T : Ty) :
    sig.addTerm address t T = sig := by
  rw [Signature.addTerm, Table.insertIfNew_of_some h]

/-- A definition under an address that has one changes nothing, so an induction only has to look at new
ones. -/
@[elab_as_elim]
theorem Checked.induction_new {motive : (sig : Signature) → sig.Checked → Prop} (h : sig.Checked)
    (empty : motive .empty .empty)
    (addType : ∀ {sig : Signature} {d : TypeDef} {k : Kind} (address : Address) (hsig : sig.Checked)
      (hd : sig.kindOfDef d = .ok k), sig.types.get? address = none → motive sig hsig →
        motive (sig.addType address d k) (.addType address hsig hd))
    (addTerm : ∀ {sig : Signature} {t : Term} {T : Ty} (address : Address) (hsig : sig.Checked)
      (ht : sig.typeOf .empty t = .ok T), sig.terms.get? address = none → motive sig hsig →
        motive (sig.addTerm address t T) (.addTerm address hsig ht)) : motive sig h := by
  have hsame : ∀ {sig sig' : Signature} (hsig : sig.Checked) (hsig' : sig'.Checked), sig' = sig →
      motive sig hsig → motive sig' hsig' := by
    rintro sig _ hsig hsig' rfl hmotive
    exact hmotive
  induction h with
  | empty => exact empty
  | @addType sig d k address hsig hd ih =>
    by_cases hnew : sig.types.get? address = none
    · exact addType address hsig hd hnew ih
    · exact hsame hsig _ (addType_of_some hnew d k) ih
  | @addTerm sig t T address hsig ht ih =>
    by_cases hnew : sig.terms.get? address = none
    · exact addTerm address hsig ht hnew ih
    · exact hsame hsig _ (addTerm_of_some hnew t T) ih

theorem nesting_addType (h : sig.types.get? address = none) (d : TypeDef) (k : Kind) :
    (sig.addType address d k).nesting = d.nesting + sig.nesting := by
  simp only [nesting, Signature.addType, Table.entries_insertIfNew_of_none h, List.foldr_cons]
  omega

theorem nesting_addTerm (h : sig.terms.get? address = none) (t : Term) (T : Ty) :
    (sig.addTerm address t T).nesting = t.nesting + sig.nesting := by
  simp only [nesting, Signature.addTerm, Table.entries_insertIfNew_of_none h, List.foldr_cons]
  omega

namespace Sound

/-- A checked type definition may be added. -/
theorem addType {bound : Nat} (hsig : sig.Sound bound) (hnew : sig.types.get? address = none)
    (hd : sig.kindOfDef d = .ok k) (hbound : d.nesting ≤ bound) :
    (sig.addType address d k).Sound bound := by
  obtain ⟨hbody, rfl⟩ := kindOfDef_eq_ok_iff.mp hd
  have hsub := Sub.addType sig address d d.kind
  have hentry : ∀ {address' e}, (sig.addType address d d.kind).types.get? address' = some e →
      e = ⟨d, d.kind⟩ ∨ sig.types.get? address' = some e := by
    intro address' e he
    rw [Signature.addType, Table.get?_insertIfNew_of_none hnew] at he
    split at he
    · exact .inl (Option.some.inj he).symm
    · exact .inr he
  refine ⟨?_, ?_, ?_, ?_, hsig.nesting_type_le⟩
  · intro address' e he
    rcases hentry he with rfl | he
    · rfl
    · exact hsig.kind_eq he
  · intro address' e he
    -- the body was checked without the new definition
    rcases hentry he with rfl | he
    · exact hsub.kindOf hbody
    · exact hsub.kindOf (hsig.kindOf_body he)
  · intro address' e he
    rcases hentry he with rfl | he
    · exact hbound
    · exact hsig.nesting_definition_le he
  · intro address' e he
    exact hsub.kindOf (hsig.kindOf_type he)

/-- A checked term may be added. -/
theorem addTerm {bound : Nat} (hsig : sig.Sound bound) (hnew : sig.terms.get? address = none)
    (hT : sig.kindOf [] T = .ok .star) (hbound : T.nesting ≤ bound) :
    (sig.addTerm address t T).Sound bound := by
  have hsub := Sub.addTerm sig address t T
  have hentry : ∀ {address' e}, (sig.addTerm address t T).terms.get? address' = some e →
      e = ⟨t, T⟩ ∨ sig.terms.get? address' = some e := by
    intro address' e he
    rw [Signature.addTerm, Table.get?_insertIfNew_of_none hnew] at he
    split at he
    · exact .inl (Option.some.inj he).symm
    · exact .inr he
  refine ⟨hsig.kind_eq, ?_, hsig.nesting_definition_le, ?_, ?_⟩
  · intro address' e he
    exact hsub.kindOf (hsig.kindOf_body he)
  · intro address' e he
    rcases hentry he with rfl | he
    · exact hsub.kindOf hT
    · exact hsub.kindOf (hsig.kindOf_type he)
  · intro address' e he
    rcases hentry he with rfl | he
    · exact hbound
    · exact hsig.nesting_type_le he

end Sound

/-- The type of a closed term has kind `*`, and the term shares the range of indices with the signature. -/
theorem kindOf_typeOf_empty (hsig : sig.Sound sig.nesting) (ht : sig.typeOf .empty t = .ok T)
    (fits : sig.nesting + t.nesting ≤ maxIndex) :
    sig.kindOf [] T = .ok .star ∧ T.nesting ≤ sig.nesting + t.nesting :=
  kindOf_typeOf hsig .empty (by simpa [Context.empty] using fits) ht

/-- Checked signatures are sound, as long as their definitions leave the range of indices room. -/
theorem Checked.sound (h : sig.Checked) (fits : sig.nesting ≤ maxIndex) : sig.Sound sig.nesting := by
  induction h using Checked.induction_new with
  | empty =>
    exact ⟨fun he => (nomatch he), fun he => (nomatch he), fun he => (nomatch he),
      fun he => (nomatch he), fun he => (nomatch he)⟩
  | @addType sig d k address _ hd hnew ih =>
    rw [nesting_addType hnew] at fits ⊢
    have hsig := (ih (by omega)).mono (Nat.le_add_left sig.nesting d.nesting)
    exact hsig.addType hnew hd (Nat.le_add_right _ _)
  | @addTerm sig t T address _ ht hnew ih =>
    -- the type of the term is bounded by the definitions before it and the term together
    rw [nesting_addTerm hnew] at fits ⊢
    have hsig := ih (by omega)
    obtain ⟨hT, hnesting⟩ := kindOf_typeOf_empty hsig ht (by omega)
    exact (hsig.mono (Nat.le_add_left sig.nesting t.nesting)).addTerm hnew hT (by omega)

end Signature

end AddressedF
