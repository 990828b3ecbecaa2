import AddressedF.Proofs.Archive

/-!
# Retrieval

What was added to a library in memory can be had again at any later time, with the same address and the same
kind or type, whatever has been done since, and also if nothing but the store is left.

## Main Definitions

* `Library.Continues`: how a library goes on when only its operations change it

## Main Results

* `Library.Archived.continues`: the archive only grows
* `Library.retrieval`: what was added is found again, checks again and is not written again

## Design Notes

All that is assumed of the digest is that it tells the byte strings apart that are hashed while the library is
used, which are the encodings of the definitions that were checked successfully in order to be added, or to
learn their address.
-/

namespace AddressedF.Library

open Stateful

variable {hashed : Set (List UInt8)} {lib lib' : Library MemoryStore} {full : Signature}

/-- A library goes on by operations, which hash only certain byte strings.  In between, references may be gone
through in another order, and the library may be opened anew over the store it has. -/
inductive Continues (hashed : Set (List UInt8)) (lib : Library MemoryStore) : Library MemoryStore → Prop where
  | refl : Continues hashed lib lib
  | operation {lib' : Library MemoryStore} (op : Operation) : Continues hashed lib lib' →
    (∀ bytes, op.Hashes lib' bytes → bytes ∈ hashed) → Continues hashed lib (op.after lib')
  | rearranged {lib' : Library MemoryStore} (schedule : Schedule) : Continues hashed lib lib' →
    Continues hashed lib { lib' with schedule }
  | reopened {lib' : Library MemoryStore} : Continues hashed lib lib' → Continues hashed lib (.new lib'.store)

theorem MemoryStore.blobs_lookup (space : Space) (name : String) (s : MemoryStore) :
    ((NameStore.lookup space name).run s).2.blobs = s.blobs := by
  show (MemoryStore.lookup space name s).2.blobs = s.blobs
  unfold MemoryStore.lookup
  split <;> rfl

theorem MemoryStore.blobs_bind (space : Space) (name : String) (a : Address) (update : Bool) (s : MemoryStore) :
    ((NameStore.bind space name a update).run s).2.blobs = s.blobs := by
  show (MemoryStore.bind space name a update s).2.blobs = s.blobs
  unfold MemoryStore.bind
  split
  · rfl
  · split
    · rfl
    · split
      · rfl
      · split <;> rfl

theorem MemoryStore.blobs_unbind (space : Space) (name : String) (s : MemoryStore) :
    ((NameStore.unbind space name).run s).2.blobs = s.blobs := by
  show (MemoryStore.unbind space name s).2.blobs = s.blobs
  unfold MemoryStore.unbind
  split <;> rfl

/-- An archive is kept and may grow. -/
def Grows (hashed : Set (List UInt8)) (lib lib' : Library MemoryStore) : Prop :=
  ∀ full, Archived hashed lib full → ∃ full', full.Sub full' ∧ Archived hashed lib' full'

theorem Grows.of_eq (hblobs : lib'.store.blobs = lib.store.blobs) (hsig : lib'.signature = lib.signature) :
    Grows hashed lib lib' := by
  intro full h
  exact ⟨full, .refl _, h.of_sub hblobs (hsig ▸ h.known_intact) (hsig ▸ h.sub)⟩

theorem upkeep_grows (hinj : hashed.InjOn Address.ofContent) :
    Upkeep (fun d => ∀ bytes, d.encode = .ok bytes → bytes ∈ hashed) (Grows hashed) where
  refl lib := .of_eq rfl rfl
  trans h h' full hfull := by
    obtain ⟨full', hsub, hfull'⟩ := h full hfull
    obtain ⟨full'', hsub', hfull''⟩ := h' full' hfull'
    exact ⟨full'', hsub.trans hsub', hfull''⟩
  load x lib full hfull := ⟨full, .refl _, Ends.state (hfull.ends_loadKey x)⟩
  check d lib full hfull :=
    ⟨full, .refl _, Ends.state ((hfull.ends_checkDefinition d).mono (fun _ _ h => h.1) fun _ _ h => h.1)⟩
  add d lib hd full hfull := by
    refine Ends.state (P := fun lib' => ∃ full', full.Sub full' ∧ Archived hashed lib' full')
      ((hfull.ends_addDefinition hinj hd).mono ?_ ?_)
    · rintro added lib' ⟨full', hsub, hfull', -⟩
      exact ⟨full', hsub, hfull'⟩
    · intro err lib' hlib'
      exact ⟨full, .refl _, hlib'⟩
  lookup space name lib := .of_eq (MemoryStore.blobs_lookup space name lib.store) rfl
  bind space name a update lib := .of_eq (MemoryStore.blobs_bind space name a update lib.store) rfl
  unbind space name lib := .of_eq (MemoryStore.blobs_unbind space name lib.store) rfl

/-- The archive only grows, by induction on how the library goes on. -/
theorem Archived.continues (h : Archived hashed lib full) (hinj : hashed.InjOn Address.ofContent)
    (hlater : Continues hashed lib lib') : ∃ full', full.Sub full' ∧ Archived hashed lib' full' := by
  induction hlater with
  | refl => exact ⟨full, .refl _, h⟩
  | @operation lib' op _ hop ih =>
    obtain ⟨full₁, hsub₁, h₁⟩ := ih
    have hgrows : Grows hashed lib' (op.after lib') := by
      refine (upkeep_grows hinj).after op ?_
      intro d e lib'' hd hcheck bytes hencode
      exact hop bytes ⟨d, hd, hencode, e, lib'', hcheck⟩
    obtain ⟨full₂, hsub₂, h₂⟩ := hgrows full₁ h₁
    exact ⟨full₂, hsub₁.trans hsub₂, h₂⟩
  | rearranged _ _ ih =>
    obtain ⟨full₁, hsub₁, h₁⟩ := ih
    exact ⟨full₁, hsub₁, h₁.of_sub rfl h₁.known_intact h₁.sub⟩
  | reopened _ ih =>
    obtain ⟨full₁, hsub₁, h₁⟩ := ih
    exact ⟨full₁, hsub₁, h₁.of_sub rfl .empty (.of_empty _)⟩

/-! ## What was added -/

theorem Archived.run_term {a : Address} {t : Term} {T : Ty} (h : Archived hashed lib full)
    (hx : full.find? (.term, a) = some (.term ⟨t, T⟩)) :
    ((addTerm t).run lib).1 = .ok ⟨a, T, false⟩ ∧ ((assessTerm t).run lib).1 = .ok (a, T) ∧
      ((getTerm a).run lib).1 = .ok ⟨t, T⟩ := by
  have hadd : ((addDefinition (.term t)).run lib).1 = .ok ⟨a, .term ⟨t, T⟩, false⟩ :=
    h.run_addDefinition (x := (.term, a)) (e := .term ⟨t, T⟩) hx
  have hassess : ((assessDefinition (.term t)).run lib).1 = .ok (a, .term ⟨t, T⟩) :=
    h.run_assessDefinition (x := (.term, a)) (e := .term ⟨t, T⟩) hx
  have hget := h.run_getKey hx
  rw [addDefinition_term, run_map] at hadd
  rw [assessDefinition_term, run_map] at hassess
  rw [getKey_term, run_map] at hget
  obtain ⟨⟨_, _, _⟩, hadd', hadded⟩ := map_eq_ok_iff.mp hadd
  obtain ⟨⟨_, _⟩, hassess', hassessed⟩ := map_eq_ok_iff.mp hassess
  obtain ⟨e, hget', he⟩ := map_eq_ok_iff.mp hget
  cases hadded
  cases hassessed
  cases he
  exact ⟨hadd', hassess', hget'⟩

theorem Archived.run_type {a : Address} {d : TypeDef} {k : Kind} (h : Archived hashed lib full)
    (hx : full.find? (.type, a) = some (.type ⟨d, k⟩)) :
    ((addType d).run lib).1 = .ok ⟨a, k, false⟩ ∧ ((assessType d).run lib).1 = .ok (a, k) ∧
      ((getType a).run lib).1 = .ok ⟨d, k⟩ := by
  have hadd : ((addDefinition (.type d)).run lib).1 = .ok ⟨a, .type ⟨d, k⟩, false⟩ :=
    h.run_addDefinition (x := (.type, a)) (e := .type ⟨d, k⟩) hx
  have hassess : ((assessDefinition (.type d)).run lib).1 = .ok (a, .type ⟨d, k⟩) :=
    h.run_assessDefinition (x := (.type, a)) (e := .type ⟨d, k⟩) hx
  have hget := h.run_getKey hx
  rw [addDefinition_type, run_map] at hadd
  rw [assessDefinition_type, run_map] at hassess
  rw [getKey_type, run_map] at hget
  obtain ⟨⟨_, _, _⟩, hadd', hadded⟩ := map_eq_ok_iff.mp hadd
  obtain ⟨⟨_, _⟩, hassess', hassessed⟩ := map_eq_ok_iff.mp hassess
  obtain ⟨e, hget', he⟩ := map_eq_ok_iff.mp hget
  cases hadded
  cases hassessed
  cases he
  exact ⟨hadd', hassess', hget'⟩

/-- What an operation added is archived ever after, and so it is in a library that is opened anew. -/
theorem exists_archived {op : Operation} {d : Definition} {added : Added Entry} {lib₁ : Library MemoryStore}
    (hinj : hashed.InjOn Address.ofContent) (hlib : Continues hashed (.new .empty) lib)
    (hop : op.definition? = some d) (hhashes : ∀ bytes, op.Hashes lib bytes → bytes ∈ hashed)
    (hadd : (addDefinition d).run lib = (.ok added, lib₁)) (hlater : Continues hashed lib₁ lib') :
    ∃ full, full.find? (d.space, added.address) = some added.classifier ∧ Archived hashed lib' full ∧
      ∀ schedule, Archived hashed ⟨lib'.store, .empty, schedule⟩ full := by
  obtain ⟨e, lib₂, hcheck, -⟩ := exists_of_run_bind hadd
  have hd : ∀ bytes, d.encode = .ok bytes → bytes ∈ hashed :=
    fun bytes hencode => hhashes bytes ⟨d, hop, hencode, e, lib₂, hcheck⟩
  obtain ⟨full, -, hfull⟩ := (Archived.new hashed).continues hinj hlib
  obtain ⟨full₁, -, hfull₁, hx⟩ := (hfull.ends_addDefinition hinj hd).of_run_ok hadd
  obtain ⟨full₂, hsub, hfull₂⟩ := hfull₁.continues hinj hlater
  exact ⟨full₂, hsub.find? hx, hfull₂, fun _ => hfull₂.of_sub rfl .empty (.of_empty full₂)⟩

/-- Let the digest be injective on the byte strings that are hashed, and a library be opened over an empty store.
Once a term has been added to it, ever after the term can be added again with the same result, but is not written
again, it checks with the same type, and it is had by its address, also from a library that is opened anew over
the store.  The same holds of type definitions. -/
theorem retrieval (hinj : hashed.InjOn Address.ofContent) (hlib : Continues hashed (.new .empty) lib) :
    (∀ t added lib₁ lib', (addTerm t).run lib = (.ok added, lib₁) →
      (∀ bytes, (Operation.addTerm t).Hashes lib bytes → bytes ∈ hashed) → Continues hashed lib₁ lib' →
      ((addTerm t).run lib').1 = .ok { added with written := false } ∧
        ((assessTerm t).run lib').1 = .ok (added.address, added.classifier) ∧
        ((getTerm added.address).run lib').1 = .ok ⟨t, added.classifier⟩ ∧
        ∀ schedule, ((getTerm added.address).run ⟨lib'.store, .empty, schedule⟩).1 =
          .ok ⟨t, added.classifier⟩) ∧
    ∀ d added lib₁ lib', (addType d).run lib = (.ok added, lib₁) →
      (∀ bytes, (Operation.addType d).Hashes lib bytes → bytes ∈ hashed) → Continues hashed lib₁ lib' →
      ((addType d).run lib').1 = .ok { added with written := false } ∧
        ((assessType d).run lib').1 = .ok (added.address, added.classifier) ∧
        ((getType added.address).run lib').1 = .ok ⟨d, added.classifier⟩ ∧
        ∀ schedule, ((getType added.address).run ⟨lib'.store, .empty, schedule⟩).1 =
          .ok ⟨d, added.classifier⟩ := by
  constructor
  · intro t added lib₁ lib' hrun hhashes hlater
    have hadd : (addDefinition (.term t)).run lib =
        (.ok ⟨added.address, .term ⟨t, added.classifier⟩, added.written⟩, lib₁) := by
      rw [addDefinition_term, run_map, hrun]
      rfl
    obtain ⟨full, hx, hfull, hfresh⟩ := exists_archived hinj hlib rfl hhashes hadd hlater
    obtain ⟨hagain, hassess, hget⟩ := hfull.run_term hx
    exact ⟨hagain, hassess, hget, fun schedule => ((hfresh schedule).run_term hx).2.2⟩
  · intro d added lib₁ lib' hrun hhashes hlater
    have hadd : (addDefinition (.type d)).run lib =
        (.ok ⟨added.address, .type ⟨d, added.classifier⟩, added.written⟩, lib₁) := by
      rw [addDefinition_type, run_map, hrun]
      rfl
    obtain ⟨full, hx, hfull, hfresh⟩ := exists_archived hinj hlib rfl hhashes hadd hlater
    obtain ⟨hagain, hassess, hget⟩ := hfull.run_type hx
    exact ⟨hagain, hassess, hget, fun schedule => ((hfresh schedule).run_type hx).2.2⟩

/-- The definition of numbers is had after zero has been added. -/
theorem retrieval_numeral :
    let zero := Numeral.zero Numeral.digest
    let hashed := {bytes | bytes = Numeral.bytes ∨ zero.encode = .ok bytes}
    let lib := Library.new MemoryStore.empty
    let added := (addType Numeral.definition).run lib
    let lib' := (Operation.addTerm zero).after added.2
    (hashed.InjOn Address.ofContent ∧ added.1 = .ok ⟨Numeral.digest, .star, true⟩ ∧
      Continues hashed added.2 lib') ∧
    ((addType Numeral.definition).run lib').1 = .ok ⟨Numeral.digest, .star, false⟩ ∧
    ((assessType Numeral.definition).run lib').1 = .ok (Numeral.digest, .star) ∧
    ((getType Numeral.digest).run lib').1 = .ok ⟨Numeral.definition, .star⟩ ∧
    ∀ schedule, ((getType Numeral.digest).run ⟨lib'.store, .empty, schedule⟩).1 =
      .ok ⟨Numeral.definition, .star⟩ := by
  intro zero hashed lib added lib'
  have hdigest : Address.ofContent Numeral.bytes = Numeral.digest := by decide +kernel
  have hinj : hashed.InjOn Address.ofContent := by
    have hzero : ∀ bytes, zero.encode = .ok bytes → Address.ofContent bytes ≠ Numeral.digest := by
      have hencode : zero.encode = .ok (zero.encode.toOption.getD []) := by rfl
      intro bytes hbytes
      cases hbytes.symm.trans hencode
      decide +kernel
    rintro bytes (rfl | hbytes) bytes' (rfl | hbytes') heq
    · rfl
    · exact (hzero bytes' hbytes' (heq.symm.trans hdigest)).elim
    · exact (hzero bytes hbytes (heq.trans hdigest)).elim
    · exact Except.ok.inj (hbytes.symm.trans hbytes')
  have hadded : added = (.ok ⟨Numeral.digest, .star, true⟩, added.2) := by
    rw [← hdigest]
    rfl
  have hhashes : ∀ bytes, (Operation.addType Numeral.definition).Hashes lib bytes → bytes ∈ hashed := by
    rintro bytes ⟨_, ⟨⟩, hencode, -⟩
    have hbytes : Numeral.definition.encode = .ok Numeral.bytes := by decide +kernel
    exact .inl (Except.ok.inj (hencode.symm.trans hbytes))
  have hlater : Continues hashed added.2 lib' := by
    refine .operation (.addTerm zero) .refl ?_
    rintro bytes ⟨_, ⟨⟩, hencode, -⟩
    exact .inr hencode
  exact ⟨⟨hinj, congrArg Prod.fst hadded, hlater⟩,
    (retrieval hinj .refl).2 Numeral.definition _ added.2 lib' hadded hhashes hlater⟩

end AddressedF.Library
