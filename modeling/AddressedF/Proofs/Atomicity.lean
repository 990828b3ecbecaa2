import AddressedF.Proofs.Addition
import AddressedF.Proofs.Loadable
import AddressedF.Proofs.Session

/-!
# Atomicity

An operation on a library over a store in memory does all that it is asked for, or it leaves bytes and names as
they were.

## Main Definitions

* `Content.put`: bytes under a key that has none
* `Library.Operation.perform`: an operation as a computation without result
* `Library.Atomic`: computations that leave the store as it was when they fail
* `MemoryStore.NameAdded`: what a named addition changes in a store

## Main Results

* `Library.ends_addNamed`: a named addition changes what it should or nothing
* `Library.atomicity`: the same of each operation

## Design Notes

A named addition checks twice and asks for the name twice, and it writes only after it has done each once.  The
second check cannot fail: the definition checks in the signature as it is, so nothing is loaded any more.  Nor
can the name be refused again, as nothing has changed it.

The signature is not part of what is kept.  An operation that fails may have loaded definitions.
-/

namespace AddressedF

/-! ## Bytes under one key -/

namespace Content

variable {content : Content} {x y : Key} {bytes bytes' : List UInt8}

/-- The content with bytes under a key, unless there are some already. -/
def put (content : Content) (x : Key) (bytes : List UInt8) : Content := fun y =>
  if y = x then some ((content y).getD bytes) else content y

theorem put_self : content.put x bytes x = some ((content x).getD bytes) := if_pos rfl

theorem put_of_ne (h : y ≠ x) : content.put x bytes y = content y := if_neg h

theorem put_of_some (h : content y = some bytes') : content.put x bytes y = some bytes' := by
  unfold put
  split
  · rw [h, Option.getD_some]
  · exact h

theorem put_ne_none (h : content y ≠ none) : content.put x bytes y ≠ none := by
  obtain ⟨bytes', hbytes'⟩ := Option.ne_none_iff_exists'.mp h
  rw [put_of_some hbytes']
  exact Option.some_ne_none bytes'

/-- What is there was there before, or has just been put there. -/
theorem eq_some_of_put (h : content.put x bytes y = some bytes') :
    content y = some bytes' ∨ y = x ∧ bytes' = bytes := by
  cases hold : content y with
  | some old => exact .inl ((put_of_some hold).symm.trans h)
  | none =>
    unfold put at h
    split at h
    · rename_i hy
      rw [hold, Option.getD_none] at h
      exact .inr ⟨hy, (Option.some.inj h).symm⟩
    · cases hold.symm.trans h

end Content

namespace MemoryStore

open Stateful

variable {s : MemoryStore} {space : Space} {name : String} {a : Address}

/-! ## Steps on a store in memory -/

/-- Asking a store in memory does not change it. -/
theorem consulted (s : MemoryStore) : BlobStore.Consulted (· = s) fun _ => True :=
  ⟨fun _ _ h => h, fun _ _ _ _ _ => trivial⟩

/-- Bytes are put where there are none. -/
theorem ends_put (s : MemoryStore) (space : Space) (a : Address) (bytes : List UInt8) :
    (put space a bytes).Ends s
      (fun written s' => (written = true ↔ s.content (space, a) = none) ∧ s'.names = s.names ∧
        s'.content = s.content.put (space, a) bytes)
      fun _ _ => False := by
  cases hold : s.content (space, a) with
  | some old =>
    have hrun : (put space a bytes).run s = (.ok false, s) := if_pos (Option.isSome_iff_exists.mpr ⟨old, hold⟩)
    refine (Ends.ok_iff hrun).mpr ⟨by simp, rfl, ?_⟩
    funext x
    by_cases hx : x = (space, a)
    · rw [hx, hold, Content.put_of_some hold]
    · rw [Content.put_of_ne hx]
  | none =>
    have hrun : (put space a bytes).run s =
        (.ok true, { s with blobs := s.blobs.insert (space, a) bytes }) := by
      refine if_neg ?_
      show ¬(s.content (space, a)).isSome
      simp [hold]
    refine (Ends.ok_iff hrun).mpr ⟨by simp, rfl, ?_⟩
    funext x
    rw [content, Table.get?_insert]
    by_cases hx : x = (space, a)
    · rw [if_pos hx, hx, Content.put_self, hold, Option.getD_none]
    · rw [if_neg hx, Content.put_of_ne hx]
      rfl

theorem ends_lookup (s : MemoryStore) (space : Space) (name : String) :
    (lookup space name).Ends s
      (fun a? s' => s' = s ∧ checkName name = .ok () ∧ a? = s.names.get? (space, name))
      fun _ s' => s' = s := by
  have hrun : (lookup space name).run s = lookup space name s := rfl
  rw [lookup] at hrun
  cases hname : checkName name with
  | error err =>
    rw [hname] at hrun
    exact (Ends.error_iff hrun).mpr rfl
  | ok =>
    rw [hname] at hrun
    exact (Ends.ok_iff hrun).mpr ⟨rfl, rfl, rfl⟩

/-- A name that may be bound is bound. -/
theorem ends_bind {update : Bool} (hname : checkName name = .ok ())
    (hfree : ∀ b, s.names.get? (space, name) = some b → b = a ∨ update = true) :
    (bind space name a update).Ends s
      (fun bound s' => s'.blobs = s.blobs ∧ (bound = true ↔ s.names.get? (space, name) = none) ∧
        ∀ x, s'.names.get? x = if x = (space, name) then some a else s.names.get? x)
      fun _ _ => False := by
  have hrun : (bind space name a update).run s = bind space name a update s := rfl
  rw [bind, hname] at hrun
  cases hb : s.names.get? (space, name) with
  | none =>
    rw [hb] at hrun
    exact (Ends.ok_iff hrun).mpr ⟨rfl, iff_of_true rfl rfl, fun x => Table.get?_insert ..⟩
  | some b =>
    rw [hb] at hrun
    dsimp only at hrun
    by_cases heq : b = a
    · rw [if_pos heq] at hrun
      refine (Ends.ok_iff hrun).mpr ⟨rfl, by simp, ?_⟩
      intro x
      split
      · rename_i hx
        rw [hx, hb, heq]
      · rfl
    · have hupdate := (hfree b hb).resolve_left heq
      rw [if_neg heq, if_pos hupdate] at hrun
      exact (Ends.ok_iff hrun).mpr ⟨rfl, by simp, fun x => Table.get?_insert ..⟩

theorem ends_unbind (s : MemoryStore) (space : Space) (name : String) :
    (unbind space name).Ends s (fun _ _ => True) fun _ s' => s' = s := by
  have hrun : (unbind space name).run s = unbind space name s := rfl
  rw [unbind] at hrun
  cases hname : checkName name with
  | error err =>
    rw [hname] at hrun
    exact (Ends.error_iff hrun).mpr rfl
  | ok =>
    rw [hname] at hrun
    exact (Ends.ok_iff hrun).mpr trivial

/-- What adding a definition at an address and binding a name to it changes in a store. -/
structure NameAdded (s s' : MemoryStore) (space : Space) (name : String) (update : Bool) (a : Address)
    (bound : Bool) : Prop where
  name_eq : s'.names.get? (space, name) = some a
  exists_bytes : ∃ bytes, s'.content (space, a) = some bytes
  /-- The name is reported to be new if nothing was bound to it. -/
  bound_iff : bound = true ↔ s.names.get? (space, name) = none
  names_eq : ∀ x, x ≠ (space, name) → s'.names.get? x = s.names.get? x
  content_eq : ∀ x, x ≠ (space, a) → s'.content x = s.content x
  /-- No bytes that were there are replaced. -/
  content_of_some : ∀ x bytes, s.content x = some bytes → s'.content x = some bytes
  /-- No name is bound to another address without permission. -/
  names_of_some : update = false → ∀ x b, s.names.get? x = some b → s'.names.get? x = some b

/-- Bytes are put and a name that is free for their address is bound. -/
theorem NameAdded.of_put_bind {s' : MemoryStore} {update bound : Bool} {bytes : List UInt8}
    (hfree : ∀ b, s.names.get? (space, name) = some b → b = a ∨ update = true)
    (hbound : bound = true ↔ s.names.get? (space, name) = none)
    (hcontent : s'.content = s.content.put (space, a) bytes)
    (hnames : ∀ x, s'.names.get? x = if x = (space, name) then some a else s.names.get? x) :
    s.NameAdded s' space name update a bound where
  name_eq := by rw [hnames, if_pos rfl]
  exists_bytes := ⟨_, by rw [hcontent, Content.put_self]⟩
  bound_iff := hbound
  names_eq x hx := by rw [hnames, if_neg hx]
  content_eq x hx := by rw [hcontent, Content.put_of_ne hx]
  content_of_some x old hold := by rw [hcontent, Content.put_of_some hold]
  names_of_some hupdate x b hb := by
    rw [hnames]
    split
    · rename_i hx
      rw [hx] at hb
      rw [(hfree b hb).resolve_right (by simp [hupdate])]
    · exact hb

end MemoryStore

namespace Library

open Stateful

/-! ## Computations that keep the store -/

section Keeping

variable {α β : Type} {x : LibraryM MemoryStore α} {f : α → LibraryM MemoryStore β}

/-- A computation leaves the store as it was. -/
def Keeps (x : LibraryM MemoryStore α) : Prop :=
  ∀ lib, (x.run lib).2.store = lib.store

/-- A computation leaves the store as it was when it fails. -/
def Atomic (x : LibraryM MemoryStore α) : Prop :=
  ∀ lib err lib', x.run lib = (.error err, lib') → lib'.store = lib.store

theorem Keeps.atomic (hx : Keeps x) : Atomic x := by
  intro lib err lib' hrun
  have hstore := hx lib
  rwa [hrun] at hstore

theorem Keeps.bind (hx : Keeps x) (hf : ∀ a, Keeps (f a)) : Keeps (x >>= f) := by
  intro lib
  have hstore := hx lib
  rw [run_bind]
  rcases hrun : x.run lib with ⟨r, lib'⟩
  rw [hrun] at hstore
  cases r with
  | ok a => exact (hf a lib').trans hstore
  | error err => exact hstore

/-- A failure comes before anything is written, or it is one of an atomic computation. -/
theorem Keeps.bind_atomic (hx : Keeps x) (hf : ∀ a, Atomic (f a)) : Atomic (x >>= f) := by
  intro lib err lib' hrun
  have hstore := hx lib
  rw [run_bind] at hrun
  rcases hx' : x.run lib with ⟨r, lib₁⟩
  rw [hx'] at hstore hrun
  cases r with
  | ok a => exact (hf a lib₁ err lib' hrun).trans hstore
  | error err' =>
    cases hrun
    exact hstore

theorem keeps_map_iff {g : α → β} : Keeps (g <$> x) ↔ Keeps x := by
  simp only [Keeps, run_map]

theorem atomic_map_iff {g : α → β} : Atomic (g <$> x) ↔ Atomic x := by
  constructor
  · intro h lib err lib' hrun
    refine h lib err lib' ?_
    rw [run_map, hrun]
    rfl
  · intro h lib err lib' hrun
    rw [run_map] at hrun
    rcases hx : x.run lib with ⟨r, lib₁⟩
    rw [hx] at hrun
    cases r with
    | ok a => cases hrun
    | error err' =>
      cases hrun
      exact h lib _ _ hx

theorem keeps_pure (a : α) : Keeps (pure a : LibraryM MemoryStore α) := fun _ => rfl

theorem keeps_throw (err : LibraryError) : Keeps (throw err : LibraryM MemoryStore α) := fun _ => rfl

theorem keeps_liftError {ε : Type} (g : ε → LibraryError) (r : Except ε α) :
    Keeps (liftError g r : LibraryM MemoryStore α) := fun _ => rfl

theorem keeps_known : Keeps (known : LibraryM MemoryStore Signature) := fun _ => rfl

end Keeping

namespace Operation

variable {σ : Type} [NameStore σ]

/-- An operation of which the result does not matter, unless it is an error. -/
def perform : Operation → LibraryM σ Unit
  | getTerm a => (fun _ => ()) <$> Library.getTerm a
  | getType a => (fun _ => ()) <$> Library.getType a
  | assessTerm t => (fun _ => ()) <$> Library.assessTerm t
  | assessType d => (fun _ => ()) <$> Library.assessType d
  | addTerm t => (fun _ => ()) <$> Library.addTerm t
  | addType d => (fun _ => ()) <$> Library.addType d
  | evaluate t fuel => (fun _ => ()) <$> Library.evaluate t fuel
  | getTermNamed name => (fun _ => ()) <$> Library.getTermNamed name
  | getTypeNamed name => (fun _ => ()) <$> Library.getTypeNamed name
  | addTermNamed name t update => (fun _ => ()) <$> Library.addTermNamed name t update
  | addTypeNamed name d update => (fun _ => ()) <$> Library.addTypeNamed name d update
  | removeName space name => (fun _ => ()) <$> Library.removeName space name

theorem after_eq_perform (op : Operation) (lib : Library σ) : op.after lib = (op.perform.run lib).2 := by
  cases op <;> rw [perform, run_map] <;> rfl

end Operation

section Operations

/-! ## Operations that only ask the store -/

/-- Nothing has to hold of what is known for the store to be kept. -/
theorem covered (lib : Library MemoryStore) : lib.Covered (· = lib.store) fun _ => True :=
  ⟨rfl, fun _ _ _ => trivial⟩

theorem keeps_loadKey (x : Key) : Keeps (loadKey x) :=
  fun lib => ((covered lib).loadKey lib.store.consulted x).store

theorem keeps_checkDefinition (d : Definition) : Keeps (checkDefinition d) := by
  intro lib
  have hcheck := (covered lib).ends_checkDefinition lib.store.consulted d
  exact Ends.state (hcheck.mono (fun _ _ h => h.1.store) fun _ _ h => h.store)

theorem keeps_prepare (d : Definition) : Keeps (prepare d) :=
  (keeps_checkDefinition d).bind fun _ => (keeps_liftError _ _).bind fun _ => keeps_pure _

theorem keeps_getKey (x : Key) : Keeps (getKey x) := by
  refine (keeps_loadKey x).bind fun e? => ?_
  cases e? with
  | none => exact keeps_throw _
  | some e => exact keeps_pure e

theorem keeps_getTerm (a : Address) : Keeps (getTerm a) :=
  keeps_map_iff.mp (getKey_term (σ := MemoryStore) a ▸ keeps_getKey (.term, a))

theorem keeps_getType (a : Address) : Keeps (getType a) :=
  keeps_map_iff.mp (getKey_type (σ := MemoryStore) a ▸ keeps_getKey (.type, a))

theorem keeps_assessDefinition (d : Definition) : Keeps (assessDefinition d) :=
  assessDefinition_eq (σ := MemoryStore) d ▸ keeps_map_iff.mpr (keeps_prepare d)

theorem keeps_assessTerm (t : Term) : Keeps (assessTerm t) :=
  keeps_map_iff.mp (assessDefinition_term (σ := MemoryStore) t ▸ keeps_assessDefinition (.term t))

theorem keeps_assessType (d : TypeDef) : Keeps (assessType d) :=
  keeps_map_iff.mp (assessDefinition_type (σ := MemoryStore) d ▸ keeps_assessDefinition (.type d))

theorem keeps_evaluate (t : Term) (fuel : Option Nat) : Keeps (evaluate t fuel) := by
  have hcheck : Keeps (checkTerm t) :=
    keeps_map_iff.mp (checkDefinition_term (σ := MemoryStore) t ▸ keeps_checkDefinition (.term t))
  refine hcheck.bind fun _ => keeps_known.bind fun _ => ?_
  split
  · exact keeps_map_iff.mpr (keeps_liftError _ _)
  · exact keeps_pure _

theorem keeps_lookup (space : Space) (name : String) :
    Keeps (onStore (NameStore.lookup space name) : LibraryM MemoryStore (Option Address)) :=
  fun lib => Ends.state ((lib.store.ends_lookup space name).mono (fun _ _ h => h.1) fun _ _ h => h)

theorem keeps_resolveName (space : Space) (name : String) :
    Keeps (resolveName space name : LibraryM MemoryStore Address) := by
  refine (keeps_lookup space name).bind fun a? => ?_
  cases a? with
  | none => exact keeps_throw _
  | some a => exact keeps_pure a

/-! ## Operations that write -/

/-- What has been checked and encoded is recorded and put into the store without failure. -/
theorem ends_commit (lib : Library MemoryStore) (d : Definition) (e : Entry) (bytes : List UInt8) :
    (commit d e bytes).Ends lib
      (fun added lib' => added.address = .ofContent bytes ∧ lib'.store.names = lib.store.names ∧
        lib'.store.content = lib.store.content.put (d.space, added.address) bytes)
      fun _ _ => False := by
  refine .bind (ends_record (.bind (ends_onStore_of_ends ((lib.store.ends_put _ _ _).mono ?_ fun _ _ h => h))))
  rintro written store ⟨-, hnames, hcontent⟩
  exact .pure ⟨rfl, hnames, hcontent⟩

theorem atomic_addDefinition (d : Definition) : Atomic (addDefinition (σ := MemoryStore) d) := by
  rw [addDefinition_eq]
  refine (keeps_prepare d).bind_atomic fun p => ?_
  intro lib err lib' hrun
  exact ((ends_commit lib d p.1 p.2).of_run_error hrun).elim

theorem atomic_removeName (space : Space) (name : String) :
    Atomic (removeName space name : LibraryM MemoryStore Bool) := by
  intro lib err lib' hrun
  have hends : (onStore (NameStore.unbind space name)).Ends lib (fun _ _ => True)
      fun _ lib' => lib'.store = lib.store := ends_onStore_of_ends (lib.store.ends_unbind space name)
  exact hends.of_run_error hrun

/-- The name is free for the address, and nothing has been done. -/
theorem ends_checkBindable (lib : Library MemoryStore) (space : Space) (name : String) (a : Address)
    (update : Bool) :
    (checkBindable space name a update).Ends lib
      (fun _ lib' => lib' = lib ∧ checkName name = .ok () ∧
        ∀ b, lib.store.names.get? (space, name) = some b → b = a ∨ update = true)
      fun _ lib' => lib' = lib := by
  refine .bind (ends_onStore_of_ends ((lib.store.ends_lookup space name).mono ?_ ?_))
  rotate_left
  · rintro err _ rfl
    rfl
  rintro a? _ ⟨rfl, hname, rfl⟩
  cases hb : lib.store.names.get? (space, name) with
  | none => exact .pure ⟨rfl, hname, fun _ h => (nomatch h)⟩
  | some b =>
    dsimp only
    split
    · exact .throw rfl
    · rename_i hfree
      refine .pure ⟨rfl, hname, ?_⟩
      rintro _ ⟨⟩
      simpa [or_iff_not_imp_left] using hfree

/-- A named addition changes what it should, or it fails and changes nothing. -/
theorem ends_addNamed (lib : Library MemoryStore) (name : String) (d : Definition) (update : Bool) :
    (addNamed name d update).Ends lib
      (fun p lib' => lib.store.NameAdded lib'.store d.space name update p.1.address p.2)
      fun _ lib' => lib'.store = lib.store := by
  rw [addNamed_eq]
  refine .bind (((covered lib).ends_prepare lib.store.consulted d).mono ?_ fun _ _ h => h.store)
  rintro ⟨e, bytes⟩ lib₁ ⟨hlib₁, he, hbytes⟩
  refine .bind ((ends_checkBindable lib₁ _ _ _ _).mono ?_ ?_)
  rotate_left
  · rintro err _ rfl
    exact hlib₁.store
  rintro - _ ⟨rfl, hname, hfree⟩
  -- from here on nothing fails
  refine .bind ((Ends.ok_iff (run_prepare_of_check he hbytes)).mpr ?_)
  refine .bind ((ends_commit _ d e bytes).mono ?_ fun _ _ h => h.elim)
  rintro added lib₂ ⟨haddress, hnames, hcontent⟩
  rw [← haddress, ← hnames] at hfree
  refine .bind (ends_onStore_of_ends ((MemoryStore.ends_bind hname hfree).mono ?_ fun _ _ h => h.elim))
  rintro bound store ⟨hblobs, hbound, hnames'⟩
  have hcontent' : store.content = lib₂.store.content := congrArg Table.get? hblobs
  rw [hnames, hlib₁.store] at hfree hbound hnames'
  rw [← hcontent', hlib₁.store] at hcontent
  exact .pure (.of_put_bind hfree hbound hcontent hnames')

/-! ## All operations -/

theorem atomic_addNamed (name : String) (d : Definition) (update : Bool) :
    Atomic (addNamed (σ := MemoryStore) name d update) :=
  fun lib _ _ hrun => (ends_addNamed lib name d update).of_run_error hrun

theorem atomic_perform (op : Operation) : Atomic (op.perform (σ := MemoryStore)) := by
  cases op with
  | getTerm a => exact atomic_map_iff.mpr (keeps_getTerm a).atomic
  | getType a => exact atomic_map_iff.mpr (keeps_getType a).atomic
  | assessTerm t => exact atomic_map_iff.mpr (keeps_assessTerm t).atomic
  | assessType d => exact atomic_map_iff.mpr (keeps_assessType d).atomic
  | addTerm t =>
    have hadd := atomic_addDefinition (.term t)
    rw [addDefinition_term, atomic_map_iff] at hadd
    exact atomic_map_iff.mpr hadd
  | addType d =>
    have hadd := atomic_addDefinition (.type d)
    rw [addDefinition_type, atomic_map_iff] at hadd
    exact atomic_map_iff.mpr hadd
  | evaluate t fuel => exact atomic_map_iff.mpr (keeps_evaluate t fuel).atomic
  | getTermNamed name =>
    refine atomic_map_iff.mpr (Keeps.atomic ?_)
    exact (keeps_resolveName .term name).bind fun a => (keeps_getTerm a).bind fun _ => keeps_pure _
  | getTypeNamed name =>
    refine atomic_map_iff.mpr (Keeps.atomic ?_)
    exact (keeps_resolveName .type name).bind fun a => (keeps_getType a).bind fun _ => keeps_pure _
  | addTermNamed name t update =>
    have hadd := atomic_addNamed name (.term t) update
    rw [addNamed_term, atomic_map_iff] at hadd
    exact atomic_map_iff.mpr hadd
  | addTypeNamed name d update =>
    have hadd := atomic_addNamed name (.type d) update
    rw [addNamed_type, atomic_map_iff] at hadd
    exact atomic_map_iff.mpr hadd
  | removeName space name => exact atomic_map_iff.mpr (atomic_removeName space name)

/-- An operation that fails leaves bytes and names as they were, and a named addition that does not fail changes
what it should. -/
theorem atomicity (lib : Library MemoryStore) :
    (∀ (op : Operation) err, (op.perform.run lib).1 = .error err → (op.after lib).store = lib.store) ∧
    (∀ name t update added bound lib', (addTermNamed name t update).run lib = (.ok (added, bound), lib') →
      lib.store.NameAdded lib'.store .term name update added.address bound) ∧
    ∀ name d update added bound lib', (addTypeNamed name d update).run lib = (.ok (added, bound), lib') →
      lib.store.NameAdded lib'.store .type name update added.address bound := by
  refine ⟨?_, ?_, ?_⟩
  · intro op err herror
    rw [op.after_eq_perform]
    exact atomic_perform op lib err _ (Prod.ext herror rfl)
  · intro name t update added bound lib' hrun
    have hadd : (addNamed name (.term t) update).run lib =
        (.ok (⟨added.address, .term ⟨t, added.classifier⟩, added.written⟩, bound), lib') := by
      rw [addNamed_term, run_map, hrun]
      rfl
    exact (ends_addNamed lib name (.term t) update).of_run_ok hadd
  · intro name d update added bound lib' hrun
    have hadd : (addNamed name (.type d) update).run lib =
        (.ok (⟨added.address, .type ⟨d, added.classifier⟩, added.written⟩, bound), lib') := by
      rw [addNamed_type, run_map, hrun]
      rfl
    exact (ends_addNamed lib name (.type d) update).of_run_ok hadd

/-- A name is kept by an addition that must not change it, and changed by one that may. -/
theorem atomicity_rebound :
    let old : Address := ⟨.replicate 32 0⟩
    let lib : Library MemoryStore := .new ⟨.empty, Table.empty.insert (.term, "f") old⟩
    let identity := Term.lam .byte (.var 0)
    let refused := Operation.addTermNamed "f" identity false
    ((refused.perform.run lib).1 = .error (.nameConflict .term "f" old) ∧
      (refused.after lib).store = lib.store) ∧
    ∃ added lib', (addTermNamed "f" identity true).run lib = (.ok (added, false), lib') ∧
      lib.store.NameAdded lib'.store .term "f" true added.address false := by
  intro old lib identity refused
  have hconflict : (refused.perform.run lib).1 = .error (.nameConflict .term "f" old) := by decide +kernel
  have hbound : ((addTermNamed "f" identity true).run lib).1.map Prod.snd = .ok false := by decide +kernel
  obtain ⟨hatomic, hterm, -⟩ := atomicity lib
  have hkept := hatomic refused _ hconflict
  rcases hrun : (addTermNamed "f" identity true).run lib with ⟨r, lib'⟩
  rw [hrun] at hbound
  obtain ⟨⟨added, bound⟩, rfl, rfl⟩ := map_eq_ok_iff.mp hbound
  exact ⟨⟨hconflict, hkept⟩, added, lib', rfl, hterm "f" identity true added false lib' hrun⟩

end Operations

end Library

end AddressedF
