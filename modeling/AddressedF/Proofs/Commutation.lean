import AddressedF.Proofs.Retrieval

/-!
# The Order of Additions

Definitions may be added in any order in which each of them can be added.  What comes out is the same: their
addresses, their kinds and types, the bytes in the store, and all that is known.

## Main Definitions

* `Library.Adds`: additions one after the other, and what they give
* `Signature.DependsOn`: the definitions that one depends on in a signature
* `Library.Account`: what additions leave of a library, which does not tell their order

## Main Results

* `Library.Archived.account`: what one addition leaves
* `Library.Adds.account`: what any number of additions leaves
* `Library.Account.sub_archive`, `Library.Account.sub_known`: all accounts of the same definitions agree
* `Library.additions_commute`: the order of additions does not matter

## Design Notes

An addition makes known what the added definition depends on, and nothing else.  Other additions may have done
so before, which is not seen afterwards.  So what is known in the end is described by what it all depends on, in
the archive that is left; and two archives with the same definitions are the same by induction on the rank.
-/

namespace AddressedF

/-! ## Dependencies -/

namespace Signature

variable {sig sig' full : Signature} {x y : Key} {e : Entry}

/-- The definition under a key mentions another one. -/
def Mentions (sig : Signature) (x y : Key) : Prop :=
  ∃ e, sig.find? x = some e ∧ y ∈ e.definition.mentions

/-- A definition depends on another one, directly, through others, or by being the same. -/
abbrev DependsOn (sig : Signature) : Key → Key → Prop := Relation.ReflTransGen sig.Mentions

theorem Sub.dependsOn (h : sig.Sub full) (hxy : sig.DependsOn x y) : full.DependsOn x y := by
  refine Relation.ReflTransGen.mono ?_ _ _ hxy
  rintro a b ⟨e, he, hb⟩
  exact ⟨e, h.find? he, hb⟩

/-- Whatever a known definition depends on is known. -/
theorem Intact.exists_find?_of_dependsOn (h : sig.Intact) (hsub : sig.Sub full) (hx : sig.find? x = some e)
    (hxy : full.DependsOn x y) : ∃ e', sig.find? y = some e' := by
  induction hxy with
  | refl => exact ⟨e, hx⟩
  | tail _ hyz ih =>
    obtain ⟨e₁, he₁⟩ := ih
    obtain ⟨e₂, he₂, hz⟩ := hyz
    cases (hsub.find? he₁).symm.trans he₂
    exact h.exists_entry he₁ _ hz

end Signature

/-- The key that an entry is added under. -/
def addedKey (added : Address × Entry) : Key := (added.2.definition.space, added.1)

namespace Library

open Stateful

variable {hashed : Set (List UInt8)} {lib lib' lib₁ lib₂ : Library MemoryStore}
  {known full full' full₁ full₂ : Signature} {added added' added₁ added₂ : List (Address × Entry)}
  {d : Definition} {x y : Key}

/-! ## Additions -/

/-- Terms and type definitions are added one after the other, all of them with success.  Of each addition there is
the address, the definition, and its type or kind.  In between, references may be gone through in another
order. -/
inductive Adds : Library MemoryStore → List (Address × Entry) → Library MemoryStore → Prop where
  | none {lib : Library MemoryStore} : Adds lib [] lib
  | term {lib lib₁ lib' : Library MemoryStore} {t : Term} {result : Added Ty} {added : List (Address × Entry)} :
    (addTerm t).run lib = (.ok result, lib₁) → Adds lib₁ added lib' →
    Adds lib ((result.address, .term ⟨t, result.classifier⟩) :: added) lib'
  | type {lib lib₁ lib' : Library MemoryStore} {d : TypeDef} {result : Added Kind}
    {added : List (Address × Entry)} : (addType d).run lib = (.ok result, lib₁) → Adds lib₁ added lib' →
    Adds lib ((result.address, .type ⟨d, result.classifier⟩) :: added) lib'
  | rearranged {lib lib' : Library MemoryStore} {added : List (Address × Entry)} (schedule : Schedule) :
    Adds { lib with schedule } added lib' → Adds lib added lib'

/-- What additions leave of a library that knows `known` and has the archive `full`: a library and its archive. -/
structure Account (hashed : Set (List UInt8)) (known full : Signature) (added : List (Address × Entry))
    (lib' : Library MemoryStore) (full' : Signature) : Prop where
  archived : Archived hashed lib' full'
  sub : full.Sub full'
  known_sub : known.Sub lib'.signature
  find?_added : ∀ r ∈ added, lib'.signature.find? (addedKey r) = some r.2
  /-- Nothing is archived but what has been added. -/
  archived_cases : ∀ x e, full'.find? x = some e → full.find? x = some e ∨ ∃ r ∈ added, x = addedKey r
  /-- Nothing is known but what the added definitions depend on. -/
  known_cases : ∀ x e, lib'.signature.find? x = some e →
    known.find? x = some e ∨ ∃ r ∈ added, full'.DependsOn (addedKey r) x

namespace Account

theorem nil (h : Archived hashed lib full) : Account hashed lib.signature full [] lib full :=
  ⟨h, .refl _, .refl _, nofun, fun _ _ => .inl, fun _ _ => .inl⟩

theorem append (h : Account hashed known full added lib₁ full₁)
    (h' : Account hashed lib₁.signature full₁ added' lib₂ full₂) :
    Account hashed known full (added ++ added') lib₂ full₂ where
  archived := h'.archived
  sub := h.sub.trans h'.sub
  known_sub := h.known_sub.trans h'.known_sub
  find?_added r hr := by
    rcases List.mem_append.mp hr with hr | hr
    · exact h'.known_sub.find? (h.find?_added r hr)
    · exact h'.find?_added r hr
  archived_cases x e he := by
    rcases h'.archived_cases x e he with he | ⟨r, hr, hx⟩
    · refine (h.archived_cases x e he).imp_right ?_
      rintro ⟨r, hr, hx⟩
      exact ⟨r, List.mem_append_left _ hr, hx⟩
    · exact .inr ⟨r, List.mem_append_right _ hr, hx⟩
  known_cases x e he := by
    rcases h'.known_cases x e he with he | ⟨r, hr, hx⟩
    · refine (h.known_cases x e he).imp_right ?_
      rintro ⟨r, hr, hx⟩
      exact ⟨r, List.mem_append_left _ hr, h'.sub.dependsOn hx⟩
    · exact .inr ⟨r, List.mem_append_right _ hr, hx⟩

end Account

/-! ## What one addition leaves -/

theorem MemoryStore.content_put {store : MemoryStore} {space : Space} {a : Address} {bytes bytes' : List UInt8}
    (h : ((BlobStore.put space a bytes).run store).2.content x = some bytes') :
    store.content x = some bytes' ∨ x = (space, a) := by
  change (MemoryStore.put space a bytes store).2.blobs.get? x = some bytes' at h
  unfold MemoryStore.put at h
  split at h
  · exact .inl h
  · rw [Table.get?_insert] at h
    split at h
    · rename_i hx
      exact .inr hx
    · exact .inl h

theorem exists_of_run_addDefinition {result : Added Entry}
    (h : (addDefinition d).run lib = (.ok result, lib')) :
    ∃ lib₁ bytes, (checkDefinition d).run lib = (.ok result.classifier, lib₁) ∧
      lib'.signature = lib₁.signature.record result.address result.classifier ∧
      lib'.store = ((BlobStore.put d.space result.address bytes).run lib₁.store).2 := by
  obtain ⟨e, lib₁, hcheck, h⟩ := exists_of_run_bind h
  obtain ⟨bytes, lib₂, hencode, h⟩ := exists_of_run_bind h
  obtain ⟨_, lib₃, hrecord, h⟩ := exists_of_run_bind h
  obtain ⟨written, lib₄, hput, h⟩ := exists_of_run_bind h
  have hlib₂ : lib₂ = lib₁ := congrArg Prod.snd hencode.symm
  have hlib₃ : lib₃ = { lib₂ with signature := lib₂.signature.record (.ofContent bytes) e } :=
    congrArg Prod.snd hrecord.symm
  have hlib₄ : lib₄ = { lib₃ with
      store := ((BlobStore.put d.space (.ofContent bytes) bytes).run lib₃.store).2 } :=
    congrArg Prod.snd hput.symm
  rw [run_pure] at h
  obtain ⟨hresult, hlib'⟩ := Prod.mk.inj h
  rw [← Except.ok.inj hresult, ← hlib', hlib₄, hlib₃, hlib₂]
  exact ⟨lib₁, bytes, hcheck, rfl, rfl⟩

namespace Archived

theorem dependsOn_of_reaches (h : Archived hashed lib full)
    (hxy : Reaches lib.signature lib.store.content x y) : full.DependsOn x y := by
  refine Relation.ReflTransGen.mono ?_ _ _ hxy
  rintro a b (⟨he, hb⟩ | ⟨-, hd, hb⟩)
  · exact ⟨_, h.sub.find? he, hb⟩
  · obtain ⟨e, he, rfl⟩ := h.holds_iff.mp hd
    exact ⟨e, he, hb⟩

theorem account {result : Added Entry} (h : Archived hashed lib full) (hinj : hashed.InjOn Address.ofContent)
    (hd : ∀ bytes, d.encode = .ok bytes → bytes ∈ hashed)
    (hrun : (addDefinition d).run lib = (.ok result, lib')) :
    ∃ full', Account hashed lib.signature full [(result.address, result.classifier)] lib' full' := by
  obtain ⟨full', hsub, h', hx⟩ := (h.ends_addDefinition hinj hd).of_run_ok hrun
  obtain ⟨lib₁, bytes, hcheck, hsignature, hstore⟩ := exists_of_run_addDefinition hrun
  obtain ⟨hresolving, he⟩ :=
    (Library.ends_checkDefinition h.known_intact lib.store.presents h.acyclic d).of_run_ok hcheck
  obtain rfl := Signature.definition_of_check he
  refine ⟨full', h', hsub, ?_, ?_, ?_, ?_⟩
  · rw [hsignature]
    exact hresolving.sub.trans (.record ..)
  · intro r hr
    obtain rfl := List.mem_singleton.mp hr
    obtain ⟨e', he'⟩ := Signature.exists_find?_record lib₁.signature result.address result.classifier
    rw [← hsignature] at he'
    cases (h'.sub.find? he').symm.trans hx
    exact he'
  · intro x e hxe
    obtain ⟨bytes', -, -, hcontent⟩ := h'.exists_encode hxe
    rw [hstore] at hcontent
    rcases MemoryStore.content_put hcontent with hold | hkey
    · rw [hresolving.store_eq] at hold
      obtain ⟨e₀, he₀, -⟩ := h.content_iff.mp hold
      cases (hsub.find? he₀).symm.trans hxe
      exact .inl he₀
    · exact .inr ⟨_, List.mem_singleton_self _, hkey⟩
  · intro x e hxe
    rw [hsignature] at hxe
    by_cases hold : lib₁.signature.find? x = some e
    · refine (hresolving.of_find? hold).imp_right ?_
      rintro ⟨⟨y, hy, hyx⟩, -⟩
      have hmention : full'.Mentions (addedKey (result.address, result.classifier)) y := ⟨_, hx, hy⟩
      exact ⟨_, List.mem_singleton_self _, .head hmention (hsub.dependsOn (h.dependsOn_of_reaches hyx))⟩
    · obtain ⟨rfl, -, -⟩ := Signature.eq_of_find?_record hxe hold
      exact .inr ⟨_, List.mem_singleton_self _, .refl⟩

end Archived

theorem run_addDefinition_term {t : Term} {result : Added Ty} (h : (addTerm t).run lib = (.ok result, lib')) :
    (addDefinition (.term t)).run lib =
      (.ok ⟨result.address, .term ⟨t, result.classifier⟩, result.written⟩, lib') := by
  rw [addDefinition_term, run_map, h]
  rfl

theorem run_addDefinition_type {d : TypeDef} {result : Added Kind}
    (h : (addType d).run lib = (.ok result, lib')) :
    (addDefinition (.type d)).run lib =
      (.ok ⟨result.address, .type ⟨d, result.classifier⟩, result.written⟩, lib') := by
  rw [addDefinition_type, run_map, h]
  rfl

/-- What additions leave, by induction on the additions. -/
theorem Adds.account (hadds : Adds lib added lib') (h : Archived hashed lib full)
    (hinj : hashed.InjOn Address.ofContent)
    (hhashed : ∀ r ∈ added, ∀ bytes, r.2.definition.encode = .ok bytes → bytes ∈ hashed) :
    ∃ full', Account hashed lib.signature full added lib' full' := by
  induction hadds generalizing full with
  | none => exact ⟨full, .nil h⟩
  | term hrun _ ih =>
    obtain ⟨full₁, h₁⟩ := h.account hinj (hhashed _ List.mem_cons_self) (run_addDefinition_term hrun)
    obtain ⟨full₂, h₂⟩ := ih h₁.archived fun r hr => hhashed r (List.mem_cons_of_mem _ hr)
    exact ⟨full₂, h₁.append h₂⟩
  | type hrun _ ih =>
    obtain ⟨full₁, h₁⟩ := h.account hinj (hhashed _ List.mem_cons_self) (run_addDefinition_type hrun)
    obtain ⟨full₂, h₂⟩ := ih h₁.archived fun r hr => hhashed r (List.mem_cons_of_mem _ hr)
    exact ⟨full₂, h₁.append h₂⟩
  | rearranged schedule _ ih => exact ih (h.of_sub rfl h.known_intact h.sub) hhashed

/-! ## Accounts of the same definitions -/

namespace Account

theorem encode (h : Account hashed known full added lib' full') {r : Address × Entry} (hr : r ∈ added) :
    ∃ bytes, r.2.definition.encode = .ok bytes ∧ Address.ofContent bytes = r.1 :=
  h.archived.known_intact.address_eq (h.find?_added r hr)

/-- The same definition is added under the same key. -/
theorem addedKey_eq (h₁ : Account hashed known full added₁ lib₁ full₁)
    (h₂ : Account hashed known full added₂ lib₂ full₂) {r₁ r₂ : Address × Entry} (hr₁ : r₁ ∈ added₁)
    (hr₂ : r₂ ∈ added₂) (hd : r₁.2.definition = r₂.2.definition) : addedKey r₁ = addedKey r₂ := by
  obtain ⟨bytes, hencode₁, haddress₁⟩ := h₁.encode hr₁
  obtain ⟨bytes₂, hencode₂, haddress₂⟩ := h₂.encode hr₂
  rw [hd] at hencode₁
  cases hencode₁.symm.trans hencode₂
  rw [addedKey, addedKey, hd, ← haddress₁, ← haddress₂]

/-- What is archived after some additions is archived after others of the same definitions, by induction on the
rank. -/
theorem sub_archive (h₁ : Account hashed known full added₁ lib₁ full₁)
    (h₂ : Account hashed known full added₂ lib₂ full₂)
    (hadded : ∀ r₁ ∈ added₁, ∃ r₂ ∈ added₂, r₁.2.definition = r₂.2.definition) : full₁.Sub full₂ := by
  refine .of_find? ?_
  obtain ⟨rank, hrank⟩ := h₁.archived.exists_rank
  intro x
  induction hn : rank x using Nat.strong_induction_on generalizing x with
  | _ n ih =>
    intro e he
    rcases h₁.archived_cases x e he with hold | ⟨r₁, hr₁, rfl⟩
    · exact h₂.sub.find? hold
    · obtain ⟨r₂, hr₂, hd⟩ := hadded r₁ hr₁
      have hfind₁ := h₁.archived.sub.find? (h₁.find?_added r₁ hr₁)
      cases hfind₁.symm.trans he
      have hfind₂ := h₂.archived.sub.find? (h₂.find?_added r₂ hr₂)
      rw [← addedKey_eq h₁ h₂ hr₁ hr₂ hd] at hfind₂
      -- the two archives agree on what the definition mentions, and so they agree on its type or kind
      have hcheck : full₁.check r₁.2.definition = full₂.check r₁.2.definition := by
        refine Signature.check_congr ?_
        intro y hy
        obtain ⟨e', he'⟩ := h₁.archived.intact.exists_entry he y hy
        rw [he', ih (rank y) (hn ▸ hrank _ _ he y hy) y rfl e' he']
      have hcheck₂ := h₂.archived.intact.check_eq hfind₂
      rw [← hd, ← hcheck, h₁.archived.intact.check_eq he] at hcheck₂
      rw [hfind₂, Except.ok.inj hcheck₂]

/-- What is known after some additions is known after others of the same definitions. -/
theorem sub_known (h₁ : Account hashed known full added₁ lib₁ full₁)
    (h₂ : Account hashed known full added₂ lib₂ full₂)
    (hadded : ∀ r₁ ∈ added₁, ∃ r₂ ∈ added₂, r₁.2.definition = r₂.2.definition) :
    lib₁.signature.Sub lib₂.signature := by
  have hsub := sub_archive h₁ h₂ hadded
  refine .of_find? ?_
  intro x e he
  rcases h₁.known_cases x e he with hold | ⟨r₁, hr₁, hx⟩
  · exact h₂.known_sub.find? hold
  · obtain ⟨r₂, hr₂, hd⟩ := hadded r₁ hr₁
    rw [addedKey_eq h₁ h₂ hr₁ hr₂ hd] at hx
    obtain ⟨e', he'⟩ := h₂.archived.known_intact.exists_find?_of_dependsOn h₂.archived.sub
      (h₂.find?_added r₂ hr₂) (hsub.dependsOn hx)
    cases (h₂.archived.sub.find? he').symm.trans (hsub.find? (h₁.archived.sub.find? he))
    exact he'

end Account

/-- Archives of which each is a part of the other are of the same bytes. -/
theorem Archived.content_eq (h₁ : Archived hashed lib₁ full₁) (h₂ : Archived hashed lib₂ full₂)
    (hsub : full₁.Sub full₂) (hsub' : full₂.Sub full₁) : lib₁.store.content = lib₂.store.content := by
  funext x
  refine Option.ext fun bytes => ?_
  rw [h₁.content_iff, h₂.content_iff]
  constructor
  · rintro ⟨e, he, hencode⟩
    exact ⟨e, hsub.find? he, hencode⟩
  · rintro ⟨e, he, hencode⟩
    exact ⟨e, hsub'.find? he, hencode⟩

/-- Let the digest be injective on the byte strings that are hashed, and a library be opened over an empty store
and used in any way.  If the same definitions are then added in two orders, and all additions succeed, each
definition gets the same address and the same type or kind in both orders, the same bytes are stored, and the same
definitions are known. -/
theorem additions_commute (hinj : hashed.InjOn Address.ofContent) (hlib : Continues hashed (.new .empty) lib)
    (h₁ : Adds lib added₁ lib₁) (h₂ : Adds lib added₂ lib₂)
    (hperm : (added₁.map fun r => r.2.definition).Perm (added₂.map fun r => r.2.definition))
    (hhashed : ∀ r ∈ added₁, ∀ bytes, r.2.definition.encode = .ok bytes → bytes ∈ hashed) :
    (∀ r₁ ∈ added₁, ∀ r₂ ∈ added₂, r₁.2.definition = r₂.2.definition → r₁ = r₂) ∧
      lib₁.store.blobs.get? = lib₂.store.blobs.get? ∧
      lib₁.signature.types.get? = lib₂.signature.types.get? ∧
      lib₁.signature.terms.get? = lib₂.signature.terms.get? := by
  have hadded : ∀ r₁ ∈ added₁, ∃ r₂ ∈ added₂, r₁.2.definition = r₂.2.definition := by
    intro r₁ hr₁
    obtain ⟨r₂, hr₂, hd⟩ := List.mem_map.mp (hperm.mem_iff.mp (List.mem_map_of_mem hr₁))
    exact ⟨r₂, hr₂, hd.symm⟩
  have hadded' : ∀ r₂ ∈ added₂, ∃ r₁ ∈ added₁, r₂.2.definition = r₁.2.definition := by
    intro r₂ hr₂
    obtain ⟨r₁, hr₁, hd⟩ := List.mem_map.mp (hperm.mem_iff.mpr (List.mem_map_of_mem hr₂))
    exact ⟨r₁, hr₁, hd.symm⟩
  obtain ⟨full, -, hfull⟩ := (Archived.new hashed).continues hinj hlib
  obtain ⟨full₁, ha₁⟩ := h₁.account hfull hinj hhashed
  obtain ⟨full₂, ha₂⟩ := h₂.account hfull hinj fun r₂ hr₂ bytes hencode => by
    obtain ⟨r₁, hr₁, hd⟩ := hadded' r₂ hr₂
    exact hhashed r₁ hr₁ bytes (hd ▸ hencode)
  have hsub := ha₁.sub_archive ha₂ hadded
  have hsub' := ha₂.sub_archive ha₁ hadded'
  have hknown := ha₁.sub_known ha₂ hadded
  have hknown' := ha₂.sub_known ha₁ hadded'
  refine ⟨?_, ha₁.archived.content_eq ha₂.archived hsub hsub', ?_, ?_⟩
  · intro r₁ hr₁ r₂ hr₂ hd
    have hkey := ha₁.addedKey_eq ha₂ hr₁ hr₂ hd
    have hfind := hknown.find? (ha₁.find?_added r₁ hr₁)
    rw [hkey, ha₂.find?_added r₂ hr₂] at hfind
    exact Prod.ext (congrArg Prod.snd hkey) (Option.some.inj hfind).symm
  · funext a
    exact Option.ext fun e => ⟨hknown.types, hknown'.types⟩
  · funext a
    exact Option.ext fun e => ⟨hknown.terms, hknown'.terms⟩

deriving instance DecidableEq for Added

theorem run_eq_of_toOption {α : Type} {x : LibraryM MemoryStore α} {a : α}
    (h : (x.run lib).1.toOption = some a) : x.run lib = (.ok a, (x.run lib).2) := by
  rcases hrun : x.run lib with ⟨result, lib'⟩
  rw [hrun] at h
  cases result with
  | ok b => rw [Option.some.inj h]
  | error err => cases h

/-- A library over a store that has the definition of numbers. -/
def numberLibrary : Library MemoryStore :=
  .new ⟨Table.empty.insert (.type, Numeral.digest) Numeral.bytes, .empty⟩

/-- The definition of numbers and zero are added in both orders.  One evaluation for all runs computes the digests
only once. -/
theorem run_numberLibrary :
    let zero := Numeral.zero Numeral.digest
    let number : Added Kind := ⟨Numeral.digest, .star, false⟩
    let nothing : Added Ty := ⟨Numeral.zeroDigest, .ref Numeral.digest, true⟩
    let run := (addType Numeral.definition).run numberLibrary
    let run' := (addTerm zero).run numberLibrary
    (Address.ofContent Numeral.bytes = Numeral.digest ∧
        Address.ofContent (zero.encode.toOption.getD []) = Numeral.zeroDigest) ∧
      (run.1.toOption = some number ∧ ((addTerm zero).run run.2).1.toOption = some nothing) ∧
      run'.1.toOption = some nothing ∧ ((addType Numeral.definition).run run'.2).1.toOption = some number := by
  decide +kernel

/-- Numbers are stored but not known.  Their definition and zero can be added in both orders. -/
theorem additions_commute_numeral :
    let zero := Numeral.zero Numeral.digest
    let hashed := {bytes | bytes ∈ [Numeral.bytes, zero.encode.toOption.getD []]}
    let r := (Numeral.digest, Entry.type ⟨Numeral.definition, .star⟩)
    let r' := (Numeral.zeroDigest, Entry.term ⟨zero, .ref Numeral.digest⟩)
    let lib₁ := ((addTerm zero).run ((addType Numeral.definition).run numberLibrary).2).2
    let lib₂ := ((addType Numeral.definition).run ((addTerm zero).run numberLibrary).2).2
    (hashed.InjOn Address.ofContent ∧ Continues hashed (.new .empty) numberLibrary ∧
        Adds numberLibrary [r, r'] lib₁ ∧ Adds numberLibrary [r', r] lib₂) ∧
      (∀ r₁ ∈ [r, r'], ∀ r₂ ∈ [r', r], r₁.2.definition = r₂.2.definition → r₁ = r₂) ∧
      lib₁.store.blobs.get? = lib₂.store.blobs.get? ∧
      lib₁.signature.types.get? = lib₂.signature.types.get? ∧
      lib₁.signature.terms.get? = lib₂.signature.terms.get? := by
  intro zero hashed r r' lib₁ lib₂
  obtain ⟨⟨hdigest, hzeroDigest⟩, ⟨hnumber, hnothing⟩, hnothing', hnumber'⟩ := run_numberLibrary
  have hbytes : Numeral.definition.encode = .ok Numeral.bytes := by decide +kernel
  have hzeroBytes : zero.encode = .ok (zero.encode.toOption.getD []) := by decide +kernel
  have hne : Numeral.digest ≠ Numeral.zeroDigest := by decide +kernel
  have hinj : hashed.InjOn Address.ofContent := by
    intro bytes h bytes' h' heq
    rcases List.mem_pair.mp h with rfl | rfl <;> rcases List.mem_pair.mp h' with rfl | rfl
    · rfl
    · exact (hne (hdigest.symm.trans (heq.trans hzeroDigest))).elim
    · exact (hne (hdigest.symm.trans (heq.symm.trans hzeroDigest))).elim
    · rfl
  have hhashed : ∀ p ∈ [r, r'], ∀ bytes, p.2.definition.encode = .ok bytes → bytes ∈ hashed := by
    intro p hp bytes hencode
    rcases List.mem_pair.mp hp with rfl | rfl
    · exact List.mem_pair.mpr (.inl (Except.ok.inj (hencode.symm.trans hbytes)))
    · exact List.mem_pair.mpr (.inr (Except.ok.inj (hencode.symm.trans hzeroBytes)))
  have hlib : Continues hashed (.new .empty) numberLibrary := by
    have hstore : numberLibrary = .new ((Operation.addType Numeral.definition).after (.new .empty)).store := by
      rw [numberLibrary, ← hdigest]
      rfl
    rw [hstore]
    refine .reopened (.operation (.addType Numeral.definition) .refl ?_)
    rintro bytes ⟨_, ⟨⟩, hencode, -⟩
    exact hhashed r List.mem_cons_self bytes hencode
  have h₁ : Adds numberLibrary [r, r'] lib₁ :=
    .type (run_eq_of_toOption hnumber) (.term (run_eq_of_toOption hnothing) .none)
  have h₂ : Adds numberLibrary [r', r] lib₂ :=
    .term (run_eq_of_toOption hnothing') (.type (run_eq_of_toOption hnumber') .none)
  exact ⟨⟨hinj, hlib, h₁, h₂⟩, additions_commute hinj hlib h₁ h₂ (.swap ..) hhashed⟩

end Library

end AddressedF
