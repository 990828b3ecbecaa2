import AddressedF.Proofs.Resolution
import Mathlib.Data.Finset.Lattice.Fold

/-!
# Archives

A library in memory that is only changed by its own operations keeps an archive: a signature that has all that
was ever added, whether it is known at the moment or only stored.  What is loadable is what is in the archive.

## Main Definitions

* `Library.Archived`: the store has the encodings of an intact signature, of which a part is known

## Main Results

* `Library.Archived.loadable_iff`: loadable is what is archived
* `Library.Archived.ends_checkDefinition`: a definition checks as it does against the archive
* `Library.Archived.ends_addDefinition`: adding a definition puts it into the archive

## Design Notes

A definition that is added may have the digest of another one that is already there.  Then neither signature nor
store take it, and it cannot be had.  This is excluded by the assumption that on the byte strings that were
hashed, different ones have different digests.
-/

namespace AddressedF.Library

open Stateful

variable {hashed : Set (List UInt8)} {lib lib' : Library MemoryStore} {full : Signature} {x : Key}
  {d : Definition} {e : Entry}

/-- The store has the encodings of the entries of an intact signature, all of them hashed at some time, and the
known entries are among these.  Each definition mentions only definitions of a lower rank. -/
structure Archived (hashed : Set (List UInt8)) (lib : Library MemoryStore) (full : Signature) : Prop where
  intact : full.Intact
  known_intact : lib.signature.Intact
  sub : lib.signature.Sub full
  content_iff : ∀ {x bytes}, lib.store.content x = some bytes ↔
    ∃ e, full.find? x = some e ∧ e.definition.encode = .ok bytes
  mem_hashed : ∀ {x bytes}, lib.store.content x = some bytes → bytes ∈ hashed
  exists_rank : ∃ rank : Key → Nat, ∀ x e, full.find? x = some e → ∀ y ∈ e.definition.mentions, rank y < rank x

theorem run_onStore_put_of_some {space : Space} {a : Address} {bytes bytes' : List UInt8} {sig : Signature}
    (h : lib.store.content (space, a) = some bytes') :
    (onStore (BlobStore.put space a bytes)).run { lib with signature := sig } =
      (.ok false, { lib with signature := sig }) := by
  have hput : (BlobStore.put space a bytes).run lib.store = (.ok false, lib.store) :=
    if_pos (Option.isSome_iff_exists.mpr ⟨bytes', h⟩)
  show (((BlobStore.put space a bytes).run lib.store).1.mapError LibraryError.ofStore, _) = _
  rw [hput]
  rfl

theorem run_onStore_put_of_none {space : Space} {a : Address} {bytes : List UInt8} {sig : Signature}
    (h : lib.store.content (space, a) = none) :
    (onStore (BlobStore.put space a bytes)).run { lib with signature := sig } =
      (.ok true, { lib with
        signature := sig
        store := { lib.store with blobs := lib.store.blobs.insert (space, a) bytes } }) := by
  have hput : (BlobStore.put space a bytes).run lib.store =
      (.ok true, { lib.store with blobs := lib.store.blobs.insert (space, a) bytes }) := by
    refine if_neg ?_
    show ¬(lib.store.content (space, a)).isSome
    rw [h]
    exact Bool.false_ne_true
  show (((BlobStore.put space a bytes).run lib.store).1.mapError LibraryError.ofStore,
    { lib with signature := sig, store := ((BlobStore.put space a bytes).run lib.store).2 }) = _
  rw [hput]
  rfl

namespace Archived

theorem new (hashed : Set (List UInt8)) : Archived hashed (.new .empty) .empty := by
  refine ⟨.empty, .empty, .refl _, ?_, ?_, fun _ => 0, ?_⟩
  · intro x bytes
    constructor
    · rintro ⟨⟩
    · rintro ⟨e, he, -⟩
      cases (Signature.find?_empty x).symm.trans he
  · rintro x bytes ⟨⟩
  · intro x e he
    cases (Signature.find?_empty x).symm.trans he

/-- An archive is of the bytes in the store.  Less or more of it may be known. -/
theorem of_sub (h : Archived hashed lib full) (hblobs : lib'.store.blobs = lib.store.blobs)
    (hlib' : lib'.signature.Intact) (hsub : lib'.signature.Sub full) : Archived hashed lib' full := by
  have hcontent : lib'.store.content = lib.store.content := congrArg Table.get? hblobs
  exact ⟨h.intact, hlib', hsub, hcontent ▸ h.content_iff, hcontent ▸ h.mem_hashed, h.exists_rank⟩

/-! ## What is loadable -/

theorem exists_encode (h : Archived hashed lib full) (hx : full.find? x = some e) :
    ∃ bytes, e.definition.encode = .ok bytes ∧ Address.ofContent bytes = x.2 ∧
      lib.store.content x = some bytes := by
  obtain ⟨bytes, hencode, haddress⟩ := h.intact.address_eq hx
  exact ⟨bytes, hencode, haddress, h.content_iff.mpr ⟨e, hx, hencode⟩⟩

theorem holds_iff (h : Archived hashed lib full) :
    lib.store.content.Holds x d ↔ ∃ e, full.find? x = some e ∧ e.definition = d := by
  constructor
  · rintro ⟨bytes, hbytes, -, hd⟩
    obtain ⟨hspace, hencode⟩ := Definition.decode_eq_ok_iff.mp hd
    obtain ⟨e, he, hencode'⟩ := h.content_iff.mp hbytes
    have hspace' := Signature.space_of_find? he
    exact ⟨e, he, Definition.eq_of_encode (hspace'.trans hspace.symm) hencode' hencode⟩
  · rintro ⟨e, he, rfl⟩
    obtain ⟨bytes, hencode, haddress, hbytes⟩ := h.exists_encode he
    exact ⟨bytes, hbytes, haddress, Definition.decode_eq_ok_iff.mpr ⟨Signature.space_of_find? he, hencode⟩⟩

theorem acyclic (h : Archived hashed lib full) : lib.store.content.Acyclic := by
  obtain ⟨rank, hrank⟩ := h.exists_rank
  refine Content.acyclic_of_rank rank ?_
  intro x d hd
  obtain ⟨e, he, rfl⟩ := h.holds_iff.mp hd
  exact hrank x e he

theorem find?_of_loadable (h : Archived hashed lib full)
    (hx : Loadable lib.signature lib.store.content x e) : full.find? x = some e := by
  induction hx with
  | known he => exact h.sub.find? he
  | stored sig _ hd _ he ih =>
    obtain ⟨e', he', rfl⟩ := h.holds_iff.mp hd
    have hcheck : sig.check e'.definition = full.check e'.definition := by
      refine Signature.check_congr ?_
      intro y hy
      obtain ⟨e'', he''⟩ := Signature.exists_entry_of_check he hy
      rw [he'', ih y hy e'' he'']
    rw [hcheck, h.intact.check_eq he'] at he
    cases he
    exact he'

/-- What is loadable is what is archived, by induction on the rank. -/
theorem loadable_iff (h : Archived hashed lib full) :
    Loadable lib.signature lib.store.content x e ↔ full.find? x = some e := by
  refine ⟨h.find?_of_loadable, ?_⟩
  obtain ⟨rank, hrank⟩ := h.exists_rank
  induction hn : rank x using Nat.strong_induction_on generalizing x e with
  | _ n ih =>
    intro he
    cases hknown : lib.signature.find? x with
    | some e' =>
      cases (h.sub.find? hknown).symm.trans he
      exact .known hknown
    | none =>
      refine .stored full hknown (h.holds_iff.mpr ⟨e, he, rfl⟩) ?_ (h.intact.check_eq he)
      intro y hy e' he'
      exact ih (rank y) (hn ▸ hrank x e he y hy) rfl he'

/-! ## Loading and checking -/

theorem of_resolving {needed : Key → Prop} (h : Archived hashed lib full)
    (hlib' : Resolving lib.signature lib.store.content needed lib.store lib') : Archived hashed lib' full := by
  refine h.of_sub (congrArg MemoryStore.blobs hlib'.store_eq) hlib'.intact (.of_find? ?_)
  intro x e he
  exact h.loadable_iff.mp (hlib'.loadable he)

theorem ends_loadKey (h : Archived hashed lib full) (x : Key) :
    (loadKey x).Ends lib (fun _ lib' => Archived hashed lib' full) fun _ lib' => Archived hashed lib' full :=
  (Library.ends_loadKey h.known_intact lib.store.presents h.acyclic x).mono (fun _ _ hx => h.of_resolving hx.1)
    fun _ _ hx => h.of_resolving hx.1

/-- What is archived can be had. -/
theorem run_getKey (h : Archived hashed lib full) (hx : full.find? x = some e) :
    ((getKey x).run lib).1 = .ok e :=
  ((resolved_getKey h.known_intact lib.store.presents h.acyclic x).ok_iff e).mpr (h.loadable_iff.mpr hx)

/-- A definition checks as it does against the archive. -/
theorem ends_checkDefinition (h : Archived hashed lib full) (d : Definition) :
    (checkDefinition d).Ends lib (fun e lib' => Archived hashed lib' full ∧ lib'.signature.check d = .ok e)
      fun _ lib' => Archived hashed lib' full ∧ ∀ e, full.check d ≠ .ok e := by
  refine (Library.ends_checkDefinition h.known_intact lib.store.presents h.acyclic d).mono ?_ ?_
  · rintro e lib' ⟨hlib', he⟩
    exact ⟨h.of_resolving hlib', he⟩
  · rintro err lib' ⟨hlib', hwrong⟩
    have h' := h.of_resolving hlib'
    refine ⟨h', ?_⟩
    intro e he
    rcases hwrong with hfault | ⟨hmentions, err, herr⟩
    · refine not_fault h.known_intact ?_ err hfault
      intro y hy
      obtain ⟨e', he'⟩ := Signature.exists_entry_of_check he hy
      exact ⟨e', h.loadable_iff.mpr he'⟩
    · have hcheck : lib'.signature.check d = full.check d := by
        refine Signature.check_congr ?_
        intro y hy
        obtain ⟨e', he'⟩ := hmentions y hy
        rw [he', h'.sub.find? he']
      cases herr.symm.trans (hcheck.trans he)

/-! ## Adding -/

/-- Definitions with the same digest are the same. -/
theorem definition_of_digest {bytes : List UInt8} (h : Archived hashed lib full)
    (hinj : hashed.InjOn Address.ofContent) (hencode : d.encode = .ok bytes) (hbytes : bytes ∈ hashed)
    (hx : full.find? (d.space, .ofContent bytes) = some e) : e.definition = d := by
  obtain ⟨bytes', hencode', haddress, hcontent⟩ := h.exists_encode hx
  obtain rfl := hinj (h.mem_hashed hcontent) hbytes haddress
  exact Definition.eq_of_encode (Signature.space_of_find? hx) hencode' hencode

/-- A definition that is archived is known after it was added, and not written again. -/
theorem record_old {a : Address} (h : Archived hashed lib full) (hlib : (lib.signature.record a e).Intact)
    (hx : full.find? (e.definition.space, a) = some e) :
    Archived hashed { lib with signature := lib.signature.record a e } full := by
  refine h.of_sub rfl hlib (.of_find? ?_)
  intro y e' he'
  by_cases hold : lib.signature.find? y = some e'
  · exact h.sub.find? hold
  · obtain ⟨rfl, -, rfl⟩ := Signature.eq_of_find?_record he' hold
    exact hx

theorem record_new {bytes : List UInt8} (h : Archived hashed lib full) (hcheck : lib.signature.check d = .ok e)
    (hencode : d.encode = .ok bytes) (hbytes : bytes ∈ hashed)
    (hx : full.find? (d.space, .ofContent bytes) = none) :
    Archived hashed
      { lib with
        signature := lib.signature.record (.ofContent bytes) e
        store := { lib.store with blobs := lib.store.blobs.insert (d.space, .ofContent bytes) bytes } }
      (full.record (.ofContent bytes) e) := by
  have hd := Signature.definition_of_check hcheck
  have hcheck' := h.sub.check hcheck
  have hfind : ∀ y, (full.record (.ofContent bytes) e).find? y =
      if y = (d.space, .ofContent bytes) then some e else full.find? y := by
    intro y
    rw [Signature.find?_record, hd]
    split
    · rename_i hy
      rw [hy, hx, Option.getD_none]
    · rfl
  have hcontent : ∀ y, MemoryStore.content
      { lib.store with blobs := lib.store.blobs.insert (d.space, .ofContent bytes) bytes } y =
        if y = (d.space, .ofContent bytes) then some bytes else lib.store.content y :=
    fun y => Table.get?_insert ..
  refine ⟨h.intact.record hencode rfl hcheck', h.known_intact.record hencode rfl hcheck, .of_find? ?_,
    ?_, ?_, ?_⟩
  · intro y e' he'
    by_cases hold : lib.signature.find? y = some e'
    · exact (Signature.Sub.record ..).find? (h.sub.find? hold)
    · obtain ⟨rfl, -, rfl⟩ := Signature.eq_of_find?_record he' hold
      rw [hfind, hd, if_pos rfl]
  · intro y bytes'
    rw [hfind, hcontent]
    split
    · constructor
      · rintro ⟨⟩
        exact ⟨e, rfl, hd ▸ hencode⟩
      · rintro ⟨_, ⟨⟩, hencode'⟩
        rw [hd] at hencode'
        exact congrArg some (Except.ok.inj (hencode.symm.trans hencode'))
    · exact h.content_iff
  · intro y bytes' hy
    rw [hcontent] at hy
    split at hy
    · cases hy
      exact hbytes
    · exact h.mem_hashed hy
  · -- the new definition gets a rank above all it mentions, and nothing mentions it yet
    obtain ⟨rank, hrank⟩ := h.exists_rank
    refine ⟨Function.update rank (d.space, .ofContent bytes) (d.mentions.toFinset.sup rank + 1), ?_⟩
    have hold : ∀ y e', full.find? y = some e' → Function.update rank (d.space, .ofContent bytes)
        (d.mentions.toFinset.sup rank + 1) y = rank y := by
      intro y e' he'
      refine Function.update_of_ne ?_ _ _
      rintro rfl
      cases hx.symm.trans he'
    intro y e' he' z hz
    rw [hfind] at he'
    split at he'
    · rename_i hy
      cases he'
      rw [hd] at hz
      obtain ⟨e₁, he₁⟩ := Signature.exists_entry_of_check hcheck' hz
      rw [hy, Function.update_self, hold z e₁ he₁]
      exact Nat.lt_succ_of_le (Finset.le_sup (List.mem_toFinset.mpr hz))
    · obtain ⟨e₁, he₁⟩ := h.intact.exists_entry he' z hz
      rw [hold z e₁ he₁, hold y e' he']
      exact hrank y e' he' z hz

/-- The definition under a digest, if there is one, is that of the bytes, and so is its entry. -/
theorem find?_cases {bytes : List UInt8} (h : Archived hashed lib full) (hinj : hashed.InjOn Address.ofContent)
    (hcheck : full.check d = .ok e) (hencode : d.encode = .ok bytes) (hbytes : bytes ∈ hashed) :
    full.find? (d.space, .ofContent bytes) = some e ∧
        lib.store.content (d.space, .ofContent bytes) = some bytes ∨
      full.find? (d.space, .ofContent bytes) = none ∧
        lib.store.content (d.space, .ofContent bytes) = none := by
  cases hx : full.find? (d.space, .ofContent bytes) with
  | some e' =>
    obtain rfl := h.definition_of_digest hinj hencode hbytes hx
    cases (h.intact.check_eq hx).symm.trans hcheck
    exact .inl ⟨rfl, h.content_iff.mpr ⟨e, hx, hencode⟩⟩
  | none =>
    refine .inr ⟨rfl, Option.eq_none_iff_forall_ne_some.mpr ?_⟩
    intro bytes' hcontent
    obtain ⟨e', he', -⟩ := h.content_iff.mp hcontent
    cases hx.symm.trans he'

/-- A definition that checks against the archive and can be encoded is added to it, unless it is there. -/
theorem ends_addDefinition (h : Archived hashed lib full) (hinj : hashed.InjOn Address.ofContent)
    (hd : ∀ bytes, d.encode = .ok bytes → bytes ∈ hashed) :
    (addDefinition d).Ends lib
      (fun added lib' => ∃ full', full.Sub full' ∧ Archived hashed lib' full' ∧
        full'.find? (d.space, added.address) = some added.classifier)
      fun _ lib' => Archived hashed lib' full := by
  refine .bind ((h.ends_checkDefinition d).mono ?_ fun _ _ h => h.1)
  rintro e lib₁ ⟨h₁, hcheck⟩
  refine .bind (ends_liftError ?_ fun _ _ => h₁)
  intro bytes hencode
  have hbytes := hd bytes hencode
  have hdefinition := Signature.definition_of_check hcheck
  refine .bind (ends_record (.bind ?_))
  rcases h₁.find?_cases hinj (h₁.sub.check hcheck) hencode hbytes with ⟨hx, hcontent⟩ | ⟨hx, hcontent⟩
  · refine (Ends.ok_iff (run_onStore_put_of_some hcontent)).mpr (.pure ⟨full, .refl _, ?_, hx⟩)
    exact h₁.record_old (h₁.known_intact.record hencode rfl hcheck) (hdefinition ▸ hx)
  · refine (Ends.ok_iff (run_onStore_put_of_none hcontent)).mpr 
      (.pure ⟨full.record (.ofContent bytes) e, .record .., ?_, ?_⟩)
    · exact h₁.record_new hcheck hencode hbytes hx
    · rw [← hdefinition] at hx ⊢
      exact Signature.find?_record_self hx

/-- What is archived checks as before. -/
theorem ends_checkDefinition_of_find? (h : Archived hashed lib full) (hx : full.find? x = some e) :
    (checkDefinition e.definition).Ends lib
      (fun e' lib' => Archived hashed lib' full ∧ lib'.signature.check e.definition = .ok e' ∧ e' = e)
      fun _ _ => False := by
  have hcheck := h.intact.check_eq hx
  refine (h.ends_checkDefinition e.definition).mono ?_ fun _ _ hwrong => hwrong.2 e hcheck
  rintro e' lib' ⟨hlib', he'⟩
  exact ⟨hlib', he', Except.ok.inj ((hlib'.sub.check he').symm.trans hcheck)⟩

theorem run_assessDefinition (h : Archived hashed lib full) (hx : full.find? x = some e) :
    ((assessDefinition e.definition).run lib).1 = .ok (x.2, e) := by
  obtain ⟨bytes, hencode, haddress, -⟩ := h.exists_encode hx
  refine Ends.run_fst_eq_ok (.bind ((h.ends_checkDefinition_of_find? hx).mono ?_ fun _ _ h => h))
  rintro e' lib' ⟨-, -, rfl⟩
  rw [hencode]
  exact .bind (ends_liftError (fun _ hbytes => .pure (by rw [← Except.ok.inj hbytes, haddress])) nofun)

/-- What is archived can be added again, and is not written. -/
theorem run_addDefinition (h : Archived hashed lib full) (hx : full.find? x = some e) :
    ((addDefinition e.definition).run lib).1 = .ok ⟨x.2, e, false⟩ := by
  obtain ⟨bytes, hencode, haddress, -⟩ := h.exists_encode hx
  refine Ends.run_fst_eq_ok (.bind ((h.ends_checkDefinition_of_find? hx).mono ?_ fun _ _ h => h))
  rintro e' lib' ⟨hlib', -, rfl⟩
  rw [hencode]
  refine .bind (ends_liftError ?_ nofun)
  rintro _ ⟨⟩
  refine .bind (ends_record (.bind ?_))
  have hcontent : lib'.store.content (e'.definition.space, .ofContent bytes) = some bytes := by
    rw [haddress, Signature.space_of_find? hx]
    exact hlib'.content_iff.mpr ⟨e', hx, hencode⟩
  refine (Ends.ok_iff (run_onStore_put_of_some hcontent)).mpr (.pure ?_)
  rw [haddress]

end Archived

end AddressedF.Library
