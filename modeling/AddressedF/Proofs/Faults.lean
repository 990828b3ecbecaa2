import AddressedF.Proofs.Atomicity
import AddressedF.Proofs.Retrieval

/-!
# Stores That Fail

What is left of the order among stored definitions when calls of the store may fail.  A definition is recorded
in the signature before it is put into the store.  If it cannot be put there, it stays known, and a definition
that mentions it can be added after it.  This is the only way in which a reference to something that is not
stored gets into the store.

## Main Definitions

* `NameStore.Fallible`: a store of which any call may fail and then changes nothing
* `Library.Operation.Puts`: an operation comes to put the encoding of a definition into the store
* `Library.Faulted`: a library that was opened over an empty store, and the keys that could not be put into it
* `FaultyStore`: a store in memory of which certain calls fail

## Main Results

* `Library.Faulted.references_accounted`: what a stored definition mentions is stored, or it could not be put
  into the store
* `Library.dangling_reference`: a reference to a definition that could not be put into the store is stored

## Design Notes

A failed `get` does no harm: nothing is recorded that has not been loaded or added.  The keys that were lost are
a part of the history, not of the library or of the store, neither of which remembers them.
-/

namespace AddressedF

open Stateful

/-- A store that has certain bytes, of which any call may fail.  A call that fails changes no bytes.  One that
does not is that of a map, and names have nothing to do with bytes. -/
structure NameStore.Fallible {σ : Type} [NameStore σ] (content : σ → Content) : Prop where
  get : ∀ (x : Key) s, (BlobStore.get x.1 x.2).Ends s
    (fun bytes? s' => bytes? = content s x ∧ content s' = content s) fun _ s' => content s' = content s
  put : ∀ (x : Key) bytes s, (BlobStore.put x.1 x.2 bytes).Ends s
    (fun written s' => (written = true ↔ content s x = none) ∧ content s' = (content s).put x bytes)
    fun _ s' => content s' = content s
  lookup : ∀ space name s, content ((NameStore.lookup space name).run s).2 = content s
  bind : ∀ space name a update s, content ((NameStore.bind space name a update).run s).2 = content s
  unbind : ∀ space name s, content ((NameStore.unbind space name).run s).2 = content s

namespace Content

/-- A key has bytes, or it is one of those that are lost. -/
def Accounts (content : Content) (lost : Set Key) (x : Key) : Prop :=
  content x ≠ none ∨ x ∈ lost

/-- The definitions among the bytes mention only keys with bytes, but for those that are lost. -/
def ClosedExcept (content : Content) (lost : Set Key) : Prop :=
  ∀ x bytes d, content x = some bytes → Definition.decode bytes x.1 = .ok d →
    ∀ y ∈ d.mentions, content.Accounts lost y

variable {content content' : Content} {lost lost' : Set Key} {x : Key} {d : Definition}
  {bytes : List UInt8}

theorem Accounts.mono (h : content.Accounts lost x) (hcontent : content x ≠ none → content' x ≠ none)
    (hlost : lost ⊆ lost') : content'.Accounts lost' x :=
  h.imp hcontent fun hx => hlost hx

theorem ClosedExcept.mono (h : content.ClosedExcept lost) (hlost : lost ⊆ lost') : content.ClosedExcept lost' :=
  fun x bytes d hx hd y hy => (h x bytes d hx hd y hy).mono id hlost

/-- A definition of which all that it mentions is accounted for may be stored. -/
theorem ClosedExcept.put (h : content.ClosedExcept lost) (hencode : d.encode = .ok bytes)
    (hd : ∀ y ∈ d.mentions, content.Accounts lost y) (a : Address) :
    (content.put (d.space, a) bytes).ClosedExcept lost := by
  intro x bytes' d' hx hd' y hy
  rcases Content.eq_some_of_put hx with hold | ⟨rfl, rfl⟩
  · exact (h x bytes' d' hold hd' y hy).mono put_ne_none subset_rfl
  · -- no other definition has the same encoding
    obtain ⟨hspace, hencode'⟩ := Definition.decode_eq_ok_iff.mp hd'
    obtain rfl := Definition.eq_of_encode hspace hencode' hencode
    exact (hd y hy).mono put_ne_none subset_rfl

end Content

/-- Asking a store that may fail changes no bytes. -/
theorem NameStore.Fallible.consulted {σ : Type} [NameStore σ] {content : σ → Content}
    (h : NameStore.Fallible content) (c : Content) (lost : Set Key) :
    BlobStore.Consulted (content · = c) (c.Accounts lost) where
  state x s hs := Ends.state ((h.get x s).mono (fun _ _ h => h.2.trans hs) fun _ _ h => h.trans hs)
  present x s bytes hs hget := by
    obtain ⟨hbytes, -⟩ := (h.get x s).of_run_ok (Prod.ext hget rfl)
    refine .inl ?_
    rw [← hs, ← hbytes]
    exact Option.some_ne_none bytes

namespace Library

variable {σ : Type} [NameStore σ] {content : σ → Content} {lost : Set Key} {lib lib' : Library σ}
  {op : Operation} {d : Definition} {e : Entry} {bytes : List UInt8} {naming : Option (String × Bool)}

/-! ## Operations that put something into the store -/

namespace Operation

/-- The definition that an operation adds, with the name that it binds to it and whether it may change the
name. -/
def addition? : Operation → Option (Definition × Option (String × Bool))
  | addTerm t => some (.term t, none)
  | addType d => some (.type d, none)
  | addTermNamed name t update => some (.term t, some (name, update))
  | addTypeNamed name d update => some (.type d, some (name, update))
  | _ => none

end Operation

/-- What is done to add a definition, before it is recorded and put into the store. -/
def approach (d : Definition) : Option (String × Bool) → LibraryM σ (Entry × List UInt8)
  | none => prepare d
  | some (name, update) => do
    let p ← prepare d
    checkBindable d.space name (.ofContent p.2) update
    prepare d

/-- What is done after a definition has been put into the store. -/
def conclude (d : Definition) (added : Added Entry) : Option (String × Bool) → LibraryM σ Unit
  | none => pure ()
  | some (name, update) => do
    let _ ← onStore (NameStore.bind d.space name added.address update)
    return ()

theorem run_addDefinition_snd (d : Definition) (lib : Library σ) :
    ((addDefinition d).run lib).2 =
      ((approach d none >>= fun p => commit d p.1 p.2 >>= fun added => conclude d added none).run lib).2 := by
  have hdiscard : (approach d none >>= fun p => commit d p.1 p.2 >>= fun added => conclude d added none) =
      (fun _ => ()) <$> addDefinition (σ := σ) d := by
    simp only [addDefinition_eq, approach, conclude, map_eq_pure_bind, bind_assoc]
  rw [hdiscard, run_map]

theorem run_addNamed_snd (name : String) (d : Definition) (update : Bool) (lib : Library σ) :
    ((addNamed name d update).run lib).2 =
      ((approach d (some (name, update)) >>= fun p => commit d p.1 p.2 >>= fun added =>
        conclude d added (some (name, update))).run lib).2 := by
  have hdiscard : (approach d (some (name, update)) >>= fun p => commit d p.1 p.2 >>= fun added =>
      conclude d added (some (name, update))) = (fun _ => ()) <$> addNamed (σ := σ) name d update := by
    simp only [addNamed_eq, approach, conclude, map_bind, map_pure, bind_assoc]
  rw [hdiscard, run_map]

namespace Operation

/-- An operation that adds a definition takes these three steps. -/
theorem after_of_addition (h : op.addition? = some (d, naming)) (lib : Library σ) :
    op.after lib = ((Library.approach d naming >>= fun p => commit d p.1 p.2 >>= fun added =>
      conclude d added naming).run lib).2 := by
  cases op <;> cases h
  case addTerm t => rw [← run_addDefinition_snd, addDefinition_term, run_map]; rfl
  case addType d => rw [← run_addDefinition_snd, addDefinition_type, run_map]; rfl
  case addTermNamed name t update => rw [← run_addNamed_snd, addNamed_term, run_map]; rfl
  case addTypeNamed name d update => rw [← run_addNamed_snd, addNamed_type, run_map]; rfl

/-- An operation has come to put the encoding of a definition into the store of `lib'`. -/
def Puts (op : Operation) (lib : Library σ) (d : Definition) (bytes : List UInt8) (lib' : Library σ) : Prop :=
  ∃ naming e, op.addition? = some (d, naming) ∧ (approach d naming).run lib = (.ok (e, bytes), lib')

/-- The keys under which an operation fails to put bytes into the store. -/
def losses (op : Operation) (lib : Library σ) : Set Key :=
  {x | ∃ d bytes lib' err, op.Puts lib d bytes lib' ∧ x = (d.space, .ofContent bytes) ∧
    ((BlobStore.put x.1 x.2 bytes).run lib'.store).1 = .error err}

end Operation

/-! ## What is kept -/

/-- All that is known, and all that a stored definition mentions, is stored or lost. -/
structure Kept (content : σ → Content) (lost : Set Key) (lib : Library σ) : Prop where
  covered : lib.Covered (content · = content lib.store) ((content lib.store).Accounts lost)
  closed : (content lib.store).ClosedExcept lost

omit [NameStore σ] in
theorem Kept.of_covered {c : Content} (h : lib.Covered (content · = c) (c.Accounts lost))
    (hclosed : c.ClosedExcept lost) : lib.Kept content lost := by
  obtain rfl := h.store
  exact ⟨h, hclosed⟩

omit [NameStore σ] in
theorem Kept.mono {lost' : Set Key} (h : lib.Kept content lost) (hlost : lost ⊆ lost') :
    lib.Kept content lost' :=
  ⟨⟨h.covered.store, fun x e he => (h.covered.known x e he).mono id hlost⟩, h.closed.mono hlost⟩

section Steps

variable (hstore : NameStore.Fallible content) {c : Content}
include hstore

/-- Nothing but an addition changes the bytes in the store. -/
theorem upkeep_covered (c : Content) (lost : Set Key) :
    Upkeep (fun _ => False) fun lib lib' : Library σ =>
      lib.Covered (content · = c) (c.Accounts lost) → lib'.Covered (content · = c) (c.Accounts lost) where
  refl _ hlib := hlib
  trans h h' hlib := h' (h hlib)
  load x _ hlib := hlib.loadKey (hstore.consulted c lost) x
  check d _ hlib :=
    Ends.state ((hlib.ends_checkDefinition (hstore.consulted c lost) d).mono (fun _ _ h => h.1) fun _ _ h => h)
  add _ _ h _ := h.elim
  lookup space name lib hlib := ⟨(hstore.lookup space name lib.store).trans hlib.store, hlib.known⟩
  bind space name a update lib hlib := ⟨(hstore.bind space name a update lib.store).trans hlib.store, hlib.known⟩
  unbind space name lib hlib := ⟨(hstore.unbind space name lib.store).trans hlib.store, hlib.known⟩

theorem Kept.after_of_none (hlib : lib.Kept content lost) (hop : op.addition? = none) :
    (op.after lib).Kept content lost := by
  have hquiet := upkeep_covered hstore (content lib.store) lost
  refine .of_covered ?_ hlib.closed
  cases op with
  | addTerm | addType | addTermNamed | addTypeNamed => cases hop
  | assessTerm t => exact hquiet.assessTerm t lib hlib.covered
  | assessType d => exact hquiet.assessType d lib hlib.covered
  | _ => exact hquiet.after _ (fun _ _ _ h => (nomatch h)) hlib.covered

/-- Before a definition is put into the store, it has been checked and encoded, and no bytes have changed. -/
theorem ends_approach (hlib : lib.Covered (content · = c) (c.Accounts lost)) (d : Definition)
    (naming : Option (String × Bool)) :
    (approach d naming).Ends lib
      (fun p lib' => lib'.Covered (content · = c) (c.Accounts lost) ∧ lib'.signature.check d = .ok p.1 ∧
        d.encode = .ok p.2)
      fun _ lib' => lib'.Covered (content · = c) (c.Accounts lost) := by
  have hconsulted := hstore.consulted c lost
  cases naming with
  | none => exact hlib.ends_prepare hconsulted d
  | some naming =>
    refine .bind ((hlib.ends_prepare hconsulted d).mono ?_ fun _ _ h => h)
    rintro p lib₁ ⟨hlib₁, -⟩
    have hquiet := upkeep_covered hstore c lost
    refine .bind ((Ends.of_state (hquiet.checkBindable _ _ _ _ lib₁ hlib₁)).mono ?_ fun _ _ h => h)
    intro _ lib₂ hlib₂
    exact hlib₂.ends_prepare hconsulted d

/-- A definition that has been checked and encoded is stored, or it cannot be put into the store. -/
theorem ends_commit_of_fallible (hlib : lib.Kept content lost) (he : lib.signature.check d = .ok e)
    (hbytes : d.encode = .ok bytes) :
    (commit d e bytes).Ends lib (fun _ lib' => lib'.Kept content lost)
      fun _ lib' => lib'.Kept content (lost ∪ {(d.space, .ofContent bytes)}) ∧
        ∃ err, ((BlobStore.put d.space (.ofContent bytes) bytes).run lib.store).1 = .error err := by
  have hdefinition := Signature.definition_of_check he
  refine .bind (ends_record (.bind (ends_onStore_of_ends ?_)))
  refine ((hstore.put (d.space, .ofContent bytes) bytes lib.store).and_run).mono ?_ ?_
  · rintro written store ⟨⟨-, hcontent⟩, -⟩
    have hclosed := hlib.closed.put hbytes (hlib.covered.of_check he) (.ofContent bytes)
    refine .pure (.of_covered ⟨hcontent, ?_⟩ hclosed)
    intro x e' he'
    by_cases hold : lib.signature.find? x = some e'
    · exact (hlib.covered.known x e' hold).mono Content.put_ne_none subset_rfl
    · -- what is recorded has just been put into the store
      obtain ⟨rfl, -, -⟩ := Signature.eq_of_find?_record he' hold
      refine .inl ?_
      rw [hdefinition, Content.put_self]
      exact Option.some_ne_none _
  · rintro err store ⟨hcontent, hrun⟩
    have hlib' : lib.Kept content (lost ∪ {(d.space, .ofContent bytes)}) := hlib.mono Set.subset_union_left
    refine ⟨.of_covered (c := content lib.store) ⟨hcontent, ?_⟩ hlib'.closed, err, congrArg Prod.fst hrun⟩
    intro x e' he'
    by_cases hold : lib.signature.find? x = some e'
    · exact hlib'.covered.known x e' hold
    · obtain ⟨rfl, -, -⟩ := Signature.eq_of_find?_record he' hold
      exact .inr (.inr (by rw [hdefinition]; rfl))

theorem Kept.conclude (hlib : lib.Kept content lost) (d : Definition) (added : Added Entry)
    (naming : Option (String × Bool)) : ((Library.conclude d added naming).run lib).2.Kept content lost := by
  cases naming with
  | none => exact hlib
  | some naming =>
    have hquiet := upkeep_covered hstore (content lib.store) lost
    refine .of_covered (hquiet.state_bind (hquiet.bind _ _ _ _ lib) ?_ hlib.covered) hlib.closed
    intro _ lib' _
    exact hquiet.refl lib'

theorem Kept.after_of_some (hlib : lib.Kept content lost) (hop : op.addition? = some (d, naming)) :
    (op.after lib).Kept content (lost ∪ op.losses lib) := by
  have hmono : ∀ {lib' : Library σ}, lib'.Kept content lost → lib'.Kept content (lost ∪ op.losses lib) :=
    fun h => h.mono Set.subset_union_left
  rw [op.after_of_addition hop]
  refine Ends.state (.bind (((ends_approach hstore hlib.covered d naming).and_run).mono ?_ ?_))
  · rintro ⟨e, bytes⟩ lib₁ ⟨⟨hlib₁, he, hbytes⟩, hrun⟩
    have hkept₁ : lib₁.Kept content lost := .of_covered hlib₁ hlib.closed
    refine .bind ((ends_commit_of_fallible hstore hkept₁ he hbytes).mono ?_ ?_)
    · intro added lib₂ hlib₂
      exact .of_state ((hmono hlib₂).conclude hstore d added naming)
    · rintro err lib₂ ⟨hlib₂, err', hput⟩
      refine hlib₂.mono (Set.union_subset_union_right lost ?_)
      rintro _ rfl
      exact ⟨d, bytes, lib₁, err', ⟨naming, e, hop, hrun⟩, rfl, hput⟩
  · rintro err lib₁ ⟨hlib₁, -⟩
    exact hmono (.of_covered hlib₁ hlib.closed)

theorem Kept.after (hlib : lib.Kept content lost) (op : Operation) :
    (op.after lib).Kept content (lost ∪ op.losses lib) := by
  cases hop : op.addition? with
  | none => exact (hlib.after_of_none hstore hop).mono Set.subset_union_left
  | some p => exact hlib.after_of_some hstore hop

end Steps

/-! ## Sequences of operations -/

/-- A library that was opened over an empty store and then changed by operations, and the keys under which bytes
could not be put into the store.  In between, references may be gone through in another order. -/
inductive Faulted (content : σ → Content) : Library σ → Set Key → Prop where
  | new {store : σ} : (∀ x, content store x = none) → Faulted content (.new store) ∅
  | operation {lib : Library σ} {lost : Set Key} (op : Operation) : Faulted content lib lost →
    Faulted content (op.after lib) (lost ∪ op.losses lib)
  | rearranged {lib : Library σ} {lost : Set Key} (schedule : Schedule) : Faulted content lib lost →
    Faulted content { lib with schedule } lost

theorem Faulted.kept (hstore : NameStore.Fallible content) (h : Faulted content lib lost) :
    lib.Kept content lost := by
  induction h with
  | new hempty =>
    refine ⟨⟨rfl, ?_⟩, ?_⟩
    · intro x e he
      cases (Signature.find?_empty x).symm.trans he
    · intro x bytes d hx
      cases (hempty x).symm.trans hx
  | operation op _ ih => exact ih.after hstore op
  | rearranged _ _ ih => exact ⟨⟨rfl, ih.covered.known⟩, ih.closed⟩

/-- Let any call of a store fail.  When an operation comes to put a definition into the store, whatever the
definition mentions is in the store, unless it could not be put there before.  So what any stored definition
mentions is stored, unless it could not be put into the store. -/
theorem Faulted.references_accounted (hstore : NameStore.Fallible content) (h : Faulted content lib lost) :
    (∀ (op : Operation) d bytes lib', op.Puts lib d bytes lib' →
      ∀ y ∈ d.mentions, content lib'.store y ≠ none ∨ y ∈ lost) ∧
    (content lib.store).ClosedExcept lost := by
  have hkept := h.kept hstore
  refine ⟨?_, hkept.closed⟩
  rintro op d bytes lib' ⟨naming, e, -, hrun⟩ y hy
  obtain ⟨hlib', he, -⟩ := (ends_approach hstore hkept.covered d naming).of_run_ok hrun
  have haccounts := hlib'.of_check he y hy
  rwa [← hlib'.store] at haccounts

end Library

/-! ## A store in memory of which certain calls fail -/

/-- A store in memory, and for each of the next calls whether it fails.  None of those after that does. -/
structure FaultyStore where
  memory : MemoryStore
  plan : List Bool

namespace FaultyStore

variable {α : Type} {step : StoreM MemoryStore α} {s : FaultyStore}

/-- A call fails, or it is one of the store in memory. -/
def call (step : StoreM MemoryStore α) : StoreM FaultyStore α := fun s =>
  if s.plan.headD false then (.error (.file .notFound), { s with plan := s.plan.tail })
  else ((step.run s.memory).1, ⟨(step.run s.memory).2, s.plan.tail⟩)

instance : NameStore FaultyStore where
  get space a := call (MemoryStore.get space a)
  put space a bytes := call (MemoryStore.put space a bytes)
  capacity s := s.memory.blobs.size
  lookup space name := call (MemoryStore.lookup space name)
  bind space name a update := call (MemoryStore.bind space name a update)
  unbind space name := call (MemoryStore.unbind space name)

/-- The content of the store in memory. -/
def content (s : FaultyStore) : Content := s.memory.content

theorem ends_call {ok : α → FaultyStore → Prop} {error : StoreError → FaultyStore → Prop}
    (hfail : ∀ plan, error (.file .notFound) { s with plan })
    (hstep : step.Ends s.memory (fun a memory => ∀ plan, ok a ⟨memory, plan⟩)
      fun err memory => ∀ plan, error err ⟨memory, plan⟩) : (call step).Ends s ok error := by
  cases hplan : s.plan.headD false with
  | true =>
    have hrun : (call step).run s = (.error (.file .notFound), { s with plan := s.plan.tail }) := if_pos hplan
    exact (Ends.error_iff hrun).mpr (hfail _)
  | false =>
    have hrun : (call step).run s = ((step.run s.memory).1, ⟨(step.run s.memory).2, s.plan.tail⟩) :=
      if_neg (Bool.eq_false_iff.mp hplan)
    rcases hmemory : step.run s.memory with ⟨r, memory⟩
    rw [hmemory] at hrun
    cases r with
    | ok a => exact (Ends.ok_iff hrun).mpr (hstep.of_run_ok hmemory _)
    | error err => exact (Ends.error_iff hrun).mpr (hstep.of_run_error hmemory _)

theorem content_call (hstep : (step.run s.memory).2.blobs = s.memory.blobs) :
    ((call step).run s).2.content = s.content := by
  have hcontent : ∀ {memory : MemoryStore} plan, memory.blobs = s.memory.blobs →
      content ⟨memory, plan⟩ = s.content := fun _ h => congrArg Table.get? h
  refine Ends.state (P := fun s' => s'.content = s.content) (ends_call (fun _ => rfl) ?_)
  exact (Ends.of_state hstep).mono (fun _ _ h plan => hcontent plan h) fun _ _ h plan => hcontent plan h

theorem fallible : NameStore.Fallible content where
  get x s := by
    have hget : (MemoryStore.get x.1 x.2).run s.memory = (.ok (s.content x), s.memory) := rfl
    exact ends_call (fun _ => rfl) ((Ends.ok_iff hget).mpr fun _ => ⟨rfl, rfl⟩)
  put x bytes s := ends_call (fun _ => rfl)
    ((s.memory.ends_put x.1 x.2 bytes).mono (fun _ _ h _ => ⟨h.1, h.2.2⟩) fun _ _ h => h.elim)
  lookup space name s := content_call (Library.MemoryStore.blobs_lookup space name s.memory)
  bind space name a update s := content_call (Library.MemoryStore.blobs_bind space name a update s.memory)
  unbind space name s := content_call (Library.MemoryStore.blobs_unbind space name s.memory)

end FaultyStore

/-! ## A reference to what could not be stored -/

namespace Dangling

/-- The function that returns the byte it is given. -/
def identity : Term := .lam .byte (.var 0)

/-- The digest of its encoding. -/
def address : Address :=
  ⟨⟨#[14, 228, 16, 101, 136, 8, 15, 137, 70, 39, 18, 107, 92, 245, 136, 157, 120, 245, 252, 115, 126, 248,
    226, 226, 61, 6, 55, 70, 130, 77, 23, 213], rfl⟩⟩

/-- The digest of the encoding of a reference to it. -/
def referenceAddress : Address :=
  ⟨⟨#[56, 221, 196, 116, 157, 5, 225, 7, 22, 0, 247, 230, 75, 121, 83, 94, 148, 159, 73, 168, 195, 188, 73,
    176, 107, 44, 179, 211, 95, 169, 69, 80], rfl⟩⟩

/-- A library over an empty store, of which the first call will fail. -/
def opened : Library FaultyStore := .new ⟨.empty, [true]⟩

/-- The function could not be stored. -/
def failed : Library FaultyStore := (Library.Operation.addTerm identity).after opened

/-- The reference to it has been stored. -/
def dangling : Library FaultyStore := (Library.Operation.addTerm (.ref address)).after failed

/-- The reference is stored, and the function is not. -/
theorem content_dangling :
    dangling.store.content (.term, referenceAddress) = some (1 :: address.toList) ∧
      dangling.store.content (.term, address) = none := by
  decide +kernel

theorem mem_of_closedExcept {lost : Set Key} (h : dangling.store.content.ClosedExcept lost) :
    (.term, address) ∈ lost := by
  have hdecode : Definition.decode (1 :: address.toList) .term = .ok (.term (.ref address)) :=
    Definition.decode_eq_ok_iff.mpr ⟨rfl, rfl⟩
  have hmention : (.term, address) ∈ (Definition.term (.ref address)).mentions :=
    Definition.mem_mentions_term.mpr (List.mem_singleton.mpr rfl)
  obtain ⟨hstored, hlost⟩ := content_dangling
  exact (h _ _ _ hstored hdecode _ hmention).resolve_left fun h => h hlost

end Dangling

namespace Library

open Dangling

/-- A store is not closed under references any more after one of its calls has failed: the function is not
there, and a reference to it is added and stored after it. -/
theorem dangling_reference :
    ((Operation.addTerm identity).perform.run opened).1 = .error (.store (.file .notFound)) ∧
      ((addTerm (.ref address)).run failed).1.map Added.written = .ok true ∧
      ¬dangling.store.content.ClosedExcept ∅ :=
  ⟨by decide +kernel, by decide +kernel, fun h => mem_of_closedExcept h⟩

/-- The reference is there because its target could not be put into the store. -/
theorem references_accounted_dangling :
    let losses := (Operation.addTerm identity).losses opened
    let losses' := (Operation.addTerm (.ref address)).losses failed
    NameStore.Fallible FaultyStore.content ∧ Faulted FaultyStore.content dangling (∅ ∪ losses ∪ losses') ∧
      (.term, address) ∈ ∅ ∪ losses ∪ losses' := by
  intro losses losses'
  have hstore := FaultyStore.fallible
  have h : Faulted FaultyStore.content dangling (∅ ∪ losses ∪ losses') :=
    .operation (.addTerm (.ref address)) (.operation (.addTerm identity) (.new fun _ => rfl))
  exact ⟨hstore, h, mem_of_closedExcept (h.references_accounted hstore).2⟩

end Library

end AddressedF
