import AddressedF.Proofs.Regime

/-!
# Additions, Step by Step

What adding a definition does before anything is put into the store, and what it does then.  All that comes
before only asks the store, so it keeps whatever a store keeps when it is asked.

## Main Definitions

* `BlobStore.Consulted`: what a store keeps when it is asked for bytes
* `Library.Covered`: a library that knows only what is present in its store
* `Library.prepare`, `Library.commit`: the two halves of adding a definition
* `Library.addNamed`: adding a definition and binding a name to it, in either space

## Main Results

* `Library.Covered.ends_checkDefinition`: checking keeps a library covered
* `Library.run_checkDefinition_of_check`: what the signature is enough to check is checked without the store
-/

namespace AddressedF

/-- A store that is asked for bytes keeps `P`, and it returns bytes only for keys that are `present`. -/
structure BlobStore.Consulted {σ : Type} [BlobStore σ] (P : σ → Prop) (present : Key → Prop) : Prop where
  state : ∀ (x : Key) store, P store → P ((BlobStore.get x.1 x.2).run store).2
  present : ∀ (x : Key) store bytes, P store →
    ((BlobStore.get x.1 x.2).run store).1 = .ok (some bytes) → present x

namespace Library

open Stateful

/-- What a step of the store ends with, as a step of the library. -/
theorem ends_onStore_of_ends {σ α : Type} {step : StoreM σ α} {lib : Library σ} {ok : α → Library σ → Prop}
    {error : LibraryError → Library σ → Prop}
    (h : step.Ends lib.store (fun a store => ok a { lib with store })
      fun e store => error (.ofStore e) { lib with store }) : (onStore step).Ends lib ok error :=
  ends_onStore (fun _ _ hrun => h.of_run_ok hrun) fun _ _ hrun => h.of_run_error hrun

variable {σ : Type} {P : σ → Prop} {present : Key → Prop} {lib : Library σ} {d : Definition} {e : Entry}

/-! ## Asking the store -/

/-- The store has a property, and all that is known is present. -/
structure Covered (P : σ → Prop) (present : Key → Prop) (lib : Library σ) : Prop where
  store : P lib.store
  known : ∀ x e, lib.signature.find? x = some e → present x

theorem Covered.record {x : Key} (h : lib.Covered P present) (hx : (e.definition.space, x.2) = x)
    (hpresent : present x) : Covered P present { lib with signature := lib.signature.record x.2 e } := by
  refine ⟨h.store, ?_⟩
  intro y e' he'
  by_cases hold : lib.signature.find? y = some e'
  · exact h.known y e' hold
  · obtain ⟨rfl, -, -⟩ := Signature.eq_of_find?_record he' hold
    rwa [hx]

theorem Covered.of_check (h : lib.Covered P present) (he : lib.signature.check d = .ok e) :
    ∀ y ∈ d.mentions, present y := by
  intro y hy
  obtain ⟨e', he'⟩ := Signature.exists_entry_of_check he hy
  exact h.known y e' he'

variable [BlobStore σ]

/-- Loading from a store that may be asked. -/
def consulting (h : BlobStore.Consulted P present) : Regime σ where
  inv := Covered P present
  allowed _ _ := True
  missing _ := True
  found x d := d.space = x.1 ∧ present x
  fails _ := True
  space_eq h := h.1
  fetch {_ x lib} hlib _ _ := by
    have hcovered : ∀ {r store}, (BlobStore.get x.1 x.2).run lib.store = (r, store) →
        Covered P present { lib with store } := by
      intro r store hget
      refine ⟨?_, hlib.known⟩
      have hstate := h.state x lib.store hlib.store
      rwa [hget] at hstate
    refine ends_fetchDefinition ?_ ?_ ?_ ?_ ?_
    · intro store hget
      exact ⟨hcovered hget, rfl, trivial⟩
    · intro bytes store d hget _ hd
      refine ⟨hcovered hget, rfl, (Definition.decode_eq_ok_iff.mp hd).1, ?_⟩
      exact h.present x lib.store bytes hlib.store (by rw [hget])
    · intro err store hget
      exact ⟨hcovered hget, rfl, trivial⟩
    · intro bytes store hget _
      exact ⟨hcovered hget, rfl, trivial⟩
    · intro bytes store err hget _
      exact ⟨hcovered hget, rfl, trivial⟩
  allowed_mentions _ _ _ _ := trivial
  fails_circular _ _ := trivial
  fails_undefined _ _ := trivial
  fails_check _ _ _ _ _ := trivial
  inv_record {_ x d lib e} hlib _ hd he := by
    refine hlib.record ?_ hd.2
    rw [Signature.definition_of_check he, hd.1]

theorem Covered.loadKey (hlib : lib.Covered P present) (h : BlobStore.Consulted P present) (x : Key) :
    Covered P present ((Library.loadKey x).run lib).2 := by
  have hload := Regime.loads_loadKey (R := consulting h) (x := x) (fun _ _ => trivial) lib hlib
  exact Ends.state (hload.mono (fun _ _ h => h.1.inv) fun _ _ h => h.1.inv)

/-- A definition that checks mentions only what is present. -/
theorem Covered.ends_checkDefinition (hlib : lib.Covered P present) (h : BlobStore.Consulted P present)
    (d : Definition) :
    (checkDefinition d).Ends lib (fun e lib' => lib'.Covered P present ∧ lib'.signature.check d = .ok e)
      fun _ lib' => lib'.Covered P present := by
  have hcheck := Regime.ends_checkDefinition (R := consulting h) (d := d) (fun _ _ _ _ => trivial) hlib
  exact hcheck.mono (fun _ _ h => ⟨h.1.inv, h.2⟩) fun _ _ h => h.1.inv

/-! ## What is known already -/

/-- Loading what is known, which changes nothing. -/
def settled (lib : Library σ) : Regime σ where
  inv lib' := lib' = lib
  allowed _ x := ∃ e, lib.signature.find? x = some e
  missing _ := False
  found _ _ := False
  fails _ := False
  space_eq h := h.elim
  fetch {_ x lib'} hlib hx hnone := by
    obtain ⟨e, he⟩ := hx
    rw [hlib, he] at hnone
    cases hnone
  allowed_mentions _ h := h.elim
  fails_circular _ h := h
  fails_undefined _ h := h
  fails_check _ _ h := h.elim
  inv_record _ _ h := h.elim

/-- A definition that checks in the signature as it is has all it mentions there, so that nothing is loaded and
nothing can go wrong. -/
theorem run_checkDefinition_of_check (he : lib.signature.check d = .ok e) :
    (checkDefinition d).run lib = (.ok e, lib) := by
  have hcheck := Regime.ends_checkDefinition (R := settled lib) (d := d)
    (fun y hy _ _ => Signature.exists_entry_of_check he hy) rfl
  rcases hrun : (checkDefinition d).run lib with ⟨r, lib'⟩
  cases r with
  | ok e' =>
    obtain ⟨⟨rfl, -⟩, he'⟩ := hcheck.of_run_ok hrun
    rw [Except.ok.inj (he'.symm.trans he)]
  | error err =>
    obtain ⟨⟨rfl, -⟩, hfails | ⟨err', -, -, herr⟩⟩ := hcheck.of_run_error hrun
    · exact hfails.elim
    · cases herr.symm.trans he

/-! ## The two halves of an addition -/

/-- Checks a definition and encodes it. -/
def prepare (d : Definition) : LibraryM σ (Entry × List UInt8) := do
  let e ← checkDefinition d
  let bytes ← liftError .encode d.encode
  return (e, bytes)

/-- Records a definition that has been checked and encoded, and puts it into the store. -/
def commit (d : Definition) (e : Entry) (bytes : List UInt8) : LibraryM σ (Added Entry) := do
  record (.ofContent bytes) e
  let written ← onStore (BlobStore.put d.space (.ofContent bytes) bytes)
  return ⟨.ofContent bytes, e, written⟩

theorem addDefinition_eq (d : Definition) :
    addDefinition (σ := σ) d = prepare d >>= fun p => commit d p.1 p.2 := by
  simp only [addDefinition, prepare, commit, bind_assoc, pure_bind]

theorem assessDefinition_eq (d : Definition) :
    assessDefinition (σ := σ) d = (fun p => (.ofContent p.2, p.1)) <$> prepare d := by
  simp only [assessDefinition, prepare, map_bind, map_pure]

theorem Covered.ends_prepare (hlib : lib.Covered P present) (h : BlobStore.Consulted P present)
    (d : Definition) :
    (prepare d).Ends lib
      (fun p lib' => lib'.Covered P present ∧ lib'.signature.check d = .ok p.1 ∧ d.encode = .ok p.2)
      fun _ lib' => lib'.Covered P present := by
  refine .bind ((hlib.ends_checkDefinition h d).mono ?_ fun _ _ h => h)
  rintro e lib' ⟨hlib', he⟩
  refine .bind (ends_liftError ?_ fun _ _ => hlib')
  intro bytes hbytes
  exact .pure ⟨hlib', he, hbytes⟩

/-- Nothing is left to prepare where a definition checks already. -/
theorem run_prepare_of_check {bytes : List UInt8} (he : lib.signature.check d = .ok e)
    (hbytes : d.encode = .ok bytes) : (prepare d).run lib = (.ok (e, bytes), lib) := by
  rw [prepare, run_bind, run_checkDefinition_of_check he, hbytes]
  rfl

end Library

namespace Library

variable {σ : Type} [NameStore σ]

/-- Adds a definition and binds a name to it. -/
def addNamed (name : String) (d : Definition) (update : Bool) : LibraryM σ (Added Entry × Bool) := do
  let (a, _) ← assessDefinition d
  checkBindable d.space name a update
  let added ← addDefinition d
  let bound ← onStore (NameStore.bind d.space name added.address update)
  return (added, bound)

theorem addNamed_eq (name : String) (d : Definition) (update : Bool) :
    addNamed (σ := σ) name d update = (do
      let p ← prepare d
      checkBindable d.space name (.ofContent p.2) update
      let p ← prepare d
      let added ← commit d p.1 p.2
      let bound ← onStore (NameStore.bind d.space name added.address update)
      return (added, bound)) := by
  simp only [addNamed, assessDefinition_eq, addDefinition_eq, bind_map_left, bind_assoc]

theorem addNamed_term (name : String) (t : Term) (update : Bool) :
    addNamed (σ := σ) name (.term t) update =
      (fun p => (⟨p.1.address, .term ⟨t, p.1.classifier⟩, p.1.written⟩, p.2)) <$>
        addTermNamed name t update := by
  simp only [addNamed, assessDefinition_term, addDefinition_term, addTermNamed, map_bind, bind_map_left,
    map_pure]
  rfl

theorem addNamed_type (name : String) (d : TypeDef) (update : Bool) :
    addNamed (σ := σ) name (.type d) update =
      (fun p => (⟨p.1.address, .type ⟨d, p.1.classifier⟩, p.1.written⟩, p.2)) <$>
        addTypeNamed name d update := by
  simp only [addNamed, assessDefinition_type, addDefinition_type, addTypeNamed, map_bind, bind_map_left,
    map_pure]
  rfl

end Library

end AddressedF
