import AddressedF.Proofs.Definition
import AddressedF.Storage.Memory
import Mathlib.Data.Set.Card
import Mathlib.Logic.Relation

/-!
# What Can Be Loaded

The definitions that a store has, how they refer to each other, and which of them can be checked given what is
known.  Nothing is said here of how they are loaded.

## Main Definitions

* `Content`: the bytes under each key of a store
* `BlobStore.Presents`: a store that gives these bytes and is not changed by being asked
* `Content.Holds`, `Content.Mentions`, `Content.Acyclic`: the definitions among the bytes and their references
* `Loadable`: what is known, and what is stored and checks against what is loadable
* `Reaches`: everything that a definition depends on
* `Missing`, `Unspoiled`: a definition that is not there, and one that can only fail to load for that reason

## Main Results

* `Content.below_lt_of_mentions`: chains of references are no longer than the content is large
* `Loadable.unique`: a key has one loadable entry
* `Loadable.reaches`: whatever a loadable definition depends on is loadable
-/

namespace AddressedF

/-- The bytes under each key. -/
abbrev Content := Key → Option (List UInt8)

/-- A store that has certain bytes and is not changed when it is asked for them. -/
structure BlobStore.Presents {σ : Type} [BlobStore σ] (store : σ) (content : Content) : Prop where
  run_get : ∀ x : Key, (BlobStore.get x.1 x.2).run store = (.ok (content x), store)
  finite : {x | content x ≠ none}.Finite
  ncard_le : {x | content x ≠ none}.ncard ≤ BlobStore.capacity store

/-- The content of a store in memory. -/
def MemoryStore.content (store : MemoryStore) : Content := store.blobs.get?

theorem MemoryStore.presents (store : MemoryStore) : BlobStore.Presents store store.content := by
  have hkeys : {x | store.content x ≠ none} = (store.blobs.keys.toFinset : Set Key) := by
    ext x
    simp [content, Table.get?_eq_none_iff]
  refine ⟨fun _ => rfl, ?_, ?_⟩
  · rw [hkeys]
    exact Finset.finite_toSet _
  · rw [hkeys, Set.ncard_coe_finset]
    have hle := List.toFinset_card_le store.blobs.keys
    rwa [Table.keys, List.length_map] at hle

namespace Content

variable {content : Content} {x y : Key} {d d' : Definition}

/-- The bytes under a key belong to its address and are those of a definition. -/
def Holds (content : Content) (x : Key) (d : Definition) : Prop :=
  ∃ bytes, content x = some bytes ∧ Address.ofContent bytes = x.2 ∧ Definition.decode bytes x.1 = .ok d

/-- The definition under a key mentions another one. -/
def Mentions (content : Content) (x y : Key) : Prop :=
  ∃ d, content.Holds x d ∧ y ∈ d.mentions

/-- No definition depends on itself. -/
def Acyclic (content : Content) : Prop :=
  ∀ x, ¬Relation.TransGen content.Mentions x x

theorem Holds.ne_none (h : content.Holds x d) : content x ≠ none := by
  obtain ⟨bytes, hbytes, -⟩ := h
  rw [hbytes]
  exact Option.some_ne_none bytes

theorem Holds.unique (h : content.Holds x d) (h' : content.Holds x d') : d = d' := by
  obtain ⟨bytes, hbytes, -, hd⟩ := h
  obtain ⟨bytes', hbytes', -, hd'⟩ := h'
  cases hbytes.symm.trans hbytes'
  exact Except.ok.inj (hd.symm.trans hd')

theorem acyclic_of_rank (rank : Key → Nat)
    (h : ∀ x d, content.Holds x d → ∀ y ∈ d.mentions, rank y < rank x) : content.Acyclic := by
  intro x hx
  have hlt : ∀ {y}, Relation.TransGen content.Mentions x y → rank y < rank x := by
    intro y hxy
    induction hxy with
    | single hxy =>
      obtain ⟨d, hd, hy⟩ := hxy
      exact h x d hd _ hy
    | tail _ hyz ih =>
      obtain ⟨d, hd, hz⟩ := hyz
      exact (h _ d hd _ hz).trans ih
  exact (hlt hx).false

/-- How many keys with bytes a definition depends on, counting its own. -/
noncomputable def below (content : Content) (x : Key) : Nat :=
  {y | content y ≠ none ∧ Relation.ReflTransGen content.Mentions x y}.ncard

theorem below_le (hfinite : {x | content x ≠ none}.Finite) (x : Key) :
    content.below x ≤ {x | content x ≠ none}.ncard :=
  Set.ncard_le_ncard (fun _ h => h.1) hfinite

theorem below_pos (hfinite : {x | content x ≠ none}.Finite) (h : content.Holds x d) : 0 < content.below x := by
  refine (Set.ncard_pos (hfinite.subset fun _ h => h.1)).mpr ?_
  exact ⟨x, h.ne_none, .refl⟩

theorem below_lt_of_mentions (hfinite : {x | content x ≠ none}.Finite) (hacyclic : content.Acyclic)
    (h : content.Holds x d) (hy : y ∈ d.mentions) : content.below y < content.below x := by
  have hxy : content.Mentions x y := ⟨d, h, hy⟩
  refine Set.ncard_lt_ncard ⟨?_, ?_⟩ (hfinite.subset fun _ h => h.1)
  · rintro z ⟨hz, hyz⟩
    exact ⟨hz, .head hxy hyz⟩
  · -- the definition itself is not below what it mentions
    intro hsub
    obtain ⟨-, hyx⟩ := hsub (show x ∈ _ from ⟨h.ne_none, .refl⟩)
    exact hacyclic x (.head' hxy hyx)

end Content

/-- Whether each definition in a store mentions only keys of a lower rank. -/
def MemoryStore.isRanked (store : MemoryStore) (rank : Key → Nat) : Bool :=
  store.blobs.keys.all fun x =>
    match (store.content x).map fun bytes => Definition.decode bytes x.1 with
    | some (.ok d) => d.mentions.all fun y => decide (rank y < rank x)
    | _ => true

theorem MemoryStore.acyclic_of_isRanked {store : MemoryStore} {rank : Key → Nat} (h : store.isRanked rank) :
    store.content.Acyclic := by
  refine Content.acyclic_of_rank rank ?_
  rintro x d ⟨bytes, hbytes, -, hd⟩ y hy
  have hx : x ∈ store.blobs.keys := by
    by_contra hx
    cases (Table.get?_eq_none_iff.mpr hx).symm.trans hbytes
  have hranked := List.all_eq_true.mp h x hx
  rw [hbytes, Option.map_some, hd] at hranked
  exact of_decide_eq_true (List.all_eq_true.mp hranked y hy)

/-! ## Loadable definitions -/

section Loadable

variable (known : Signature) (content : Content)

/-- The entries that can be loaded under a key.  What is known can.  Of what is not known, the bytes have to be
stored, to belong to the address and to be those of a definition, which checks in a signature that has loadable
entries for all that it mentions. -/
inductive Loadable : Key → Entry → Prop where
  | known {x : Key} {e : Entry} : known.find? x = some e → Loadable x e
  | stored {x : Key} {d : Definition} {e : Entry} (sig : Signature) : known.find? x = none → content.Holds x d →
    (∀ y ∈ d.mentions, ∀ e', sig.find? y = some e' → Loadable y e') → sig.check d = .ok e → Loadable x e

/-- The definition under a key, known or else stored, mentions another one. -/
inductive Refers : Key → Key → Prop where
  | known {x y : Key} {e : Entry} : known.find? x = some e → y ∈ e.definition.mentions → Refers x y
  | stored {x y : Key} {d : Definition} : known.find? x = none → content.Holds x d → y ∈ d.mentions → Refers x y

/-- A definition depends on another one, directly, through others, or by being the same. -/
abbrev Reaches : Key → Key → Prop := Relation.ReflTransGen (Refers known content)

/-- A key that is neither known nor stored. -/
def Missing (x : Key) : Prop :=
  known.find? x = none ∧ content x = none

/-- Nothing is wrong with what a definition depends on, but that some of it may be missing: stored bytes are
those of a definition, and the definition checks if all it mentions is loadable. -/
structure Unspoiled (x : Key) : Prop where
  holds : ∀ {y bytes}, Reaches known content x y → known.find? y = none → content y = some bytes →
    ∃ d, content.Holds y d
  checks : ∀ {y d} {sig : Signature}, Reaches known content x y → known.find? y = none → content.Holds y d →
    (∀ z ∈ d.mentions, ∃ e, sig.find? z = some e ∧ Loadable known content z e) → ∃ e, sig.check d = .ok e

variable {known : Signature} {content : Content} {x y : Key} {d : Definition} {e e' : Entry}

namespace Loadable

theorem holds (h : Loadable known content x e) (hx : known.find? x = none) :
    content.Holds x e.definition := by
  cases h with
  | known he => cases hx.symm.trans he
  | stored sig _ hd _ he => rwa [Signature.definition_of_check he]

/-- A key has one loadable entry, by induction on what it depends on. -/
theorem unique (h : Loadable known content x e) (h' : Loadable known content x e') : e = e' := by
  induction h generalizing e' with
  | known he =>
    cases h' with
    | known he' => exact Option.some.inj (he.symm.trans he')
    | stored _ hx => cases hx.symm.trans he
  | @stored x d e sig hx hd hmentions he ih =>
    cases h' with
    | known he' => cases hx.symm.trans he'
    | @stored _ d' _ sig' _ hd' hmentions' he' =>
      obtain rfl := hd.unique hd'
      have hcheck : sig.check d = sig'.check d := by
        refine Signature.check_congr ?_
        intro y hy
        obtain ⟨e₁, he₁⟩ := Signature.exists_entry_of_check he hy
        obtain ⟨e₂, he₂⟩ := Signature.exists_entry_of_check he' hy
        rw [he₁, he₂, ih y hy e₁ he₁ (hmentions' y hy e₂ he₂)]
      exact Except.ok.inj (he.symm.trans (hcheck.trans he'))

theorem not_missing (h : Loadable known content x e) : ¬Missing known content x := by
  intro hx
  exact (h.holds hx.1).ne_none hx.2

theorem refers (hknown : known.Intact) (h : Loadable known content x e) (hxy : Refers known content x y) :
    ∃ e', Loadable known content y e' := by
  cases hxy with
  | known he hy =>
    obtain ⟨e', he'⟩ := hknown.exists_entry he y hy
    exact ⟨e', .known he'⟩
  | stored hx hd hy =>
    cases h with
    | known he => cases hx.symm.trans he
    | stored sig _ hd' hmentions he =>
      obtain rfl := hd.unique hd'
      obtain ⟨e', he'⟩ := Signature.exists_entry_of_check he hy
      exact ⟨e', hmentions y hy e' he'⟩

/-- Whatever a loadable definition depends on is loadable. -/
theorem reaches (hknown : known.Intact) (h : Loadable known content x e) (hxy : Reaches known content x y) :
    ∃ e', Loadable known content y e' := by
  induction hxy with
  | refl => exact ⟨e, h⟩
  | tail _ hyz ih =>
    obtain ⟨e', he'⟩ := ih
    exact he'.refers hknown hyz

end Loadable

/-- What depends on something else is not missing itself. -/
theorem Missing.not_refers (h : Missing known content x) : ¬Refers known content x y := by
  rintro (⟨he, -⟩ | ⟨-, hd, -⟩)
  · cases h.1.symm.trans he
  · exact hd.ne_none h.2

end Loadable

end AddressedF
