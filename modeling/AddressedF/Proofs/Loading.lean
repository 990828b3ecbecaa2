import AddressedF.Library.Operations
import AddressedF.Proofs.Definition
import AddressedF.Proofs.Stateful

/-!
# Loading in Both Spaces

Types and terms are loaded, checked and added in the same way.  The functions here do it for either, and the
equations say that they do what is done for types and for terms.

## Main Definitions

* `Library.load`, `Library.loadKey`: the entry under a key
* `Library.checkDefinition`, `Library.addDefinition`: checking a definition, and putting it into the store

## Main Results

* `Library.load_eq`: loading takes the same steps in both spaces
-/

namespace AddressedF

theorem Address.verify_cases (a : Address) (bytes : List UInt8) :
    ofContent bytes = a ∧ a.verify bytes = .ok () ∨
      ofContent bytes ≠ a ∧ a.verify bytes = .error ⟨a, ofContent bytes⟩ := by
  rw [verify]
  split
  · rename_i h
    exact .inl ⟨h, rfl⟩
  · rename_i h
    exact .inr ⟨h, rfl⟩

namespace Library

open Stateful

variable {σ : Type} [BlobStore σ]

/-! ## One loop for both spaces -/

/-- The error for a key that is mentioned but not there. -/
def undefined : Key → TypeError
  | (.type, a) => .undefinedType a
  | (.term, a) => .undefinedTerm a

/-- Records an entry. -/
def record (a : Address) (e : Entry) : LibraryM σ Unit :=
  Stateful.modify fun lib => { lib with signature := lib.signature.record a e }

/-- The definition that the store has under a key. -/
def fetchDefinition (x : Key) : LibraryM σ (Option Definition) := do
  match ← fetch x.1 x.2 with
  | none => return none
  | some bytes => return some (← liftError .decode (Definition.decode bytes x.1))

/-- The entry under a key, which is known or else recorded after `resolve` has loaded what it mentions. -/
def loadBy (x : Key) (resolve : Definition → LibraryM σ Unit) : LibraryM σ (Option Entry) := do
  if let some e := (← known).find? x then return some e
  match ← fetchDefinition x with
  | none => return none
  | some d =>
    resolve d
    let e ← liftError .typing ((← known).check d)
    record x.2 e
    return (← known).find? x

/-- Loads the keys of one space, none of which may be missing. -/
def requireAll {α : Type} (load : Address → LibraryM σ (Option α)) (missing : Address → TypeError)
    (as : List Address) : LibraryM σ Unit := do
  (← arranged as).forM fun a => do
    if (← load a).isNone then throw (.typing (missing a))

/-- Goes through both spaces, even if one of them fails. -/
def requireBoth (types terms : LibraryM σ Unit) : LibraryM σ Unit := do
  if (← Stateful.get).schedule.typesFirst then
    let forTypes ← Stateful.attempt types
    let forTerms ← Stateful.attempt terms
    settleBoth forTypes forTerms
  else
    let forTerms ← Stateful.attempt terms
    let forTypes ← Stateful.attempt types
    settleBoth forTypes forTerms

/-- Loads everything that a definition mentions.  A type definition mentions no terms. -/
def resolve (load : Key → LibraryM σ (Option Entry)) : Definition → LibraryM σ Unit
  | .type d => requireAll (fun a => load (.type, a)) .undefinedType d.references
  | .term t =>
    requireBoth (requireAll (fun a => load (.type, a)) .undefinedType t.references.types)
      (requireAll (fun a => load (.term, a)) .undefinedTerm t.references.terms)

/-- The entry under a key, loaded through at most `depth` other definitions. -/
def load (depth : Nat) : Key → LibraryM σ (Option Entry)
  | (.type, a) => Option.map .type <$> loadTypeWithin depth a
  | (.term, a) => Option.map .term <$> loadTermWithin depth a

/-- Loads everything that the definition under a key mentions, through at most `depth` other definitions
counting its own. -/
def resolveWithin : (depth : Nat) → Key → Definition → LibraryM σ Unit
  | 0, x, _ => throw (.circular x.1 x.2)
  | depth + 1, _, d => resolve (load depth) d

/-- The entry under a key. -/
def loadKey (x : Key) : LibraryM σ (Option Entry) := do
  load (← depth) x

/-- The entry of a definition, once all it mentions is loaded. -/
def checkDefinition (d : Definition) : LibraryM σ Entry := do
  resolve loadKey d
  liftError .typing ((← known).check d)

omit [BlobStore σ] in
theorem liftError_map {ε α β : Type} (f : ε → LibraryError) (g : α → β) (x : Except ε α) :
    (liftError f (x.map g) : LibraryM σ β) = g <$> liftError f x := by
  cases x <;> rfl

omit [BlobStore σ] in
theorem requireAll_map {α β : Type} (f : α → β) (load : Address → LibraryM σ (Option α))
    (missing : Address → TypeError) (as : List Address) :
    requireAll (fun a => Option.map f <$> load a) missing as = requireAll load missing as := by
  simp only [requireAll, bind_map_left, Option.isNone_map]

/-- Loading takes the same steps in both spaces. -/
theorem load_eq (depth : Nat) (x : Key) : load (σ := σ) depth x = loadBy x (resolveWithin depth x) := by
  obtain ⟨space, a⟩ := x
  cases space with
  | type =>
    simp only [load, loadTypeWithin.eq_1, loadBy, fetchDefinition, Definition.decode, liftError_map, map_bind,
      bind_assoc]
    refine bind_congr fun sig => ?_
    cases h : sig.types.get? a with
    | some e => simp only [Signature.find?, h, Option.map_some, map_pure]
    | none =>
      simp only [Signature.find?, h, Option.map_none, map_bind]
      refine bind_congr fun bytes => ?_
      cases bytes with
      | none => simp only [map_pure, Option.map_none, pure_bind]
      | some bytes =>
        cases depth with
        | zero =>
          simp only [map_bind, ExceptT.map_throw, bind_pure_comp, Functor.map_map, resolveWithin,
            ExceptT.bind_throw, bind_map_left]
        | succ depth =>
          simp only [bind_pure_comp, map_bind, Functor.map_map, resolveWithin, resolve, load, requireAll_map,
            Signature.check, bind_map_left, liftError_map]
          rfl
  | term =>
    simp only [load, loadTermWithin.eq_1, loadBy, fetchDefinition, Definition.decode, liftError_map, map_bind,
      bind_assoc]
    refine bind_congr fun sig => ?_
    cases h : sig.terms.get? a with
    | some e => simp only [Signature.find?, h, Option.map_some, map_pure]
    | none =>
      simp only [Signature.find?, h, Option.map_none, map_bind]
      refine bind_congr fun bytes => ?_
      cases bytes with
      | none => simp only [map_pure, Option.map_none, pure_bind]
      | some bytes =>
        cases depth with
        | zero =>
          simp only [map_bind, ExceptT.map_throw, bind_pure_comp, Functor.map_map, resolveWithin,
            ExceptT.bind_throw, bind_map_left]
        | succ depth =>
          simp only [bind_pure_comp, map_bind, Functor.map_map, resolveWithin, resolve, load, requireAll_map,
            Signature.check, bind_map_left, liftError_map]
          rfl

theorem loadKey_type (a : Address) : loadKey (σ := σ) (.type, a) = Option.map .type <$> loadType a := by
  simp only [loadKey, load, loadType, map_bind]

theorem loadKey_term (a : Address) : loadKey (σ := σ) (.term, a) = Option.map .term <$> loadTerm a := by
  simp only [loadKey, load, loadTerm, map_bind]

theorem checkDefinition_type (d : TypeDef) :
    checkDefinition (σ := σ) (.type d) = (fun k => .type ⟨d, k⟩) <$> checkTypeDef d := by
  simp only [checkDefinition, resolve, loadKey_type, requireAll_map, checkTypeDef, Signature.check,
    liftError_map, map_bind]
  rfl

theorem checkDefinition_term (t : Term) :
    checkDefinition (σ := σ) (.term t) = (fun T => .term ⟨t, T⟩) <$> checkTerm t := by
  simp only [checkDefinition, resolve, loadKey_type, loadKey_term, requireAll_map, checkTerm, Signature.check,
    liftError_map, map_bind]
  rfl

/-! ## Operations in both spaces -/

/-- The definition under a key, and its kind or type. -/
def getKey (x : Key) : LibraryM σ Entry := do
  match ← loadKey x with
  | some e => return e
  | none => throw (.notFound x.1 x.2)

/-- What a definition would be added as. -/
def assessDefinition (d : Definition) : LibraryM σ (Address × Entry) := do
  let e ← checkDefinition d
  let bytes ← liftError .encode d.encode
  return (.ofContent bytes, e)

/-- Checks a definition and puts it into the store. -/
def addDefinition (d : Definition) : LibraryM σ (Added Entry) := do
  let e ← checkDefinition d
  let bytes ← liftError .encode d.encode
  let a := Address.ofContent bytes
  record a e
  let written ← onStore (BlobStore.put d.space a bytes)
  return ⟨a, e, written⟩

theorem getKey_type (a : Address) : getKey (σ := σ) (.type, a) = .type <$> getType a := by
  simp only [getKey, loadKey_type, getType, map_bind, bind_map_left]
  refine bind_congr fun e? => ?_
  cases e? with
  | none => simp only [Option.map_none, ExceptT.map_throw]
  | some e => simp only [Option.map_some, map_pure]

theorem getKey_term (a : Address) : getKey (σ := σ) (.term, a) = .term <$> getTerm a := by
  simp only [getKey, loadKey_term, getTerm, map_bind, bind_map_left]
  refine bind_congr fun e? => ?_
  cases e? with
  | none => simp only [Option.map_none, ExceptT.map_throw]
  | some e => simp only [Option.map_some, map_pure]

theorem assessDefinition_type (d : TypeDef) :
    assessDefinition (σ := σ) (.type d) = (fun p => (p.1, .type ⟨d, p.2⟩)) <$> assessType d := by
  simp only [assessDefinition, checkDefinition_type, assessType, Definition.encode, map_bind, bind_map_left,
    map_pure]

theorem assessDefinition_term (t : Term) :
    assessDefinition (σ := σ) (.term t) = (fun p => (p.1, .term ⟨t, p.2⟩)) <$> assessTerm t := by
  simp only [assessDefinition, checkDefinition_term, assessTerm, Definition.encode, map_bind, bind_map_left,
    map_pure]

theorem addDefinition_type (d : TypeDef) :
    addDefinition (σ := σ) (.type d) =
      (fun added => ⟨added.address, .type ⟨d, added.classifier⟩, added.written⟩) <$> addType d := by
  simp only [addDefinition, checkDefinition_type, addType, Definition.encode, map_bind, bind_map_left, map_pure]
  rfl

theorem addDefinition_term (t : Term) :
    addDefinition (σ := σ) (.term t) =
      (fun added => ⟨added.address, .term ⟨t, added.classifier⟩, added.written⟩) <$> addTerm t := by
  simp only [addDefinition, checkDefinition_term, addTerm, Definition.encode, map_bind, bind_map_left, map_pure]
  rfl

/-! ## Steps that do not touch the store -/

section Steps

variable {lib : Library σ} {error : LibraryError → Library σ → Prop}

omit [BlobStore σ] in
theorem ends_known {ok : Signature → Library σ → Prop} (h : ok lib.signature lib) :
    known.Ends lib ok error := by
  have hrun : known.run lib = (.ok lib.signature, lib) := rfl
  exact (Ends.ok_iff hrun).mpr h

omit [BlobStore σ] in
theorem ends_arranged {as : List Address} {ok : List Address → Library σ → Prop}
    (h : ok (lib.schedule.arrange as.eraseDups) lib) : (arranged as).Ends lib ok error := by
  have hrun : (arranged as).run lib = (.ok (lib.schedule.arrange as.eraseDups), lib) := rfl
  exact (Ends.ok_iff hrun).mpr h

theorem ends_depth {ok : Nat → Library σ → Prop} (h : ok (BlobStore.capacity lib.store) lib) :
    depth.Ends lib ok error := by
  have hrun : depth.run lib = (.ok (BlobStore.capacity lib.store), lib) := rfl
  exact (Ends.ok_iff hrun).mpr h

omit [BlobStore σ] in
theorem ends_record {a : Address} {e : Entry} {ok : Unit → Library σ → Prop}
    (h : ok () { lib with signature := lib.signature.record a e }) : (record a e).Ends lib ok error := by
  have hrun : (record a e).run lib = (.ok (), { lib with signature := lib.signature.record a e }) := rfl
  exact (Ends.ok_iff hrun).mpr h

omit [BlobStore σ] in
theorem ends_liftError {ε α : Type} {f : ε → LibraryError} {r : Except ε α} {ok : α → Library σ → Prop}
    (hok : ∀ a, r = .ok a → ok a lib) (herror : ∀ e, r = .error e → error (f e) lib) :
    (liftError f r : LibraryM σ α).Ends lib ok error := by
  cases r with
  | ok a => exact (Ends.ok_iff rfl).mpr (hok a rfl)
  | error e => exact (Ends.error_iff rfl).mpr (herror e rfl)

end Steps

/-! ## Steps on the store -/

omit [BlobStore σ] in
theorem ends_onStore {α : Type} {step : StoreM σ α} {lib : Library σ} {ok : α → Library σ → Prop}
    {error : LibraryError → Library σ → Prop}
    (hok : ∀ a store, step.run lib.store = (.ok a, store) → ok a { lib with store })
    (herror : ∀ e store, step.run lib.store = (.error e, store) → error (.ofStore e) { lib with store }) :
    (onStore step).Ends lib ok error := by
  rcases hrun : step.run lib.store with ⟨r, store⟩
  have hlib : (onStore step).run lib = (r.mapError .ofStore, { lib with store }) := by
    show ((step.run lib.store).1.mapError LibraryError.ofStore, _) = _
    rw [hrun]
  cases r with
  | ok a => exact (Ends.ok_iff hlib).mpr (hok a store hrun)
  | error e => exact (Ends.error_iff hlib).mpr (herror e store hrun)

/-- Bytes from the store belong to the address. -/
theorem ends_fetch {space : Space} {a : Address} {lib : Library σ}
    {ok : Option (List UInt8) → Library σ → Prop} {error : LibraryError → Library σ → Prop}
    (hnone : ∀ store, (BlobStore.get space a).run lib.store = (.ok none, store) → ok none { lib with store })
    (hsome : ∀ bytes store, (BlobStore.get space a).run lib.store = (.ok (some bytes), store) →
      Address.ofContent bytes = a → ok (some bytes) { lib with store })
    (hstore : ∀ e store, (BlobStore.get space a).run lib.store = (.error e, store) →
      error (.ofStore e) { lib with store })
    (hmismatch : ∀ bytes store, (BlobStore.get space a).run lib.store = (.ok (some bytes), store) →
      Address.ofContent bytes ≠ a → error (.mismatch ⟨a, .ofContent bytes⟩) { lib with store }) :
    (fetch space a).Ends lib ok error := by
  refine .bind (ends_onStore ?_ hstore)
  intro bytes? store hget
  cases bytes? with
  | none =>
    dsimp only
    exact .pure (hnone store hget)
  | some bytes =>
    dsimp only
    rcases Address.verify_cases a bytes with ⟨haddress, hverify⟩ | ⟨haddress, hverify⟩
    · rw [hverify]
      exact .bind ((Ends.ok_iff rfl).mpr (.pure (hsome bytes store hget haddress)))
    · rw [hverify]
      exact .bind ((Ends.error_iff rfl).mpr (hmismatch bytes store hget haddress))

/-- A definition comes from bytes that belong to the address and can be read. -/
theorem ends_fetchDefinition {x : Key} {lib : Library σ} {ok : Option Definition → Library σ → Prop}
    {error : LibraryError → Library σ → Prop}
    (hnone : ∀ store, (BlobStore.get x.1 x.2).run lib.store = (.ok none, store) → ok none { lib with store })
    (hsome : ∀ bytes store d, (BlobStore.get x.1 x.2).run lib.store = (.ok (some bytes), store) →
      Address.ofContent bytes = x.2 → Definition.decode bytes x.1 = .ok d → ok (some d) { lib with store })
    (hstore : ∀ e store, (BlobStore.get x.1 x.2).run lib.store = (.error e, store) →
      error (.ofStore e) { lib with store })
    (hmismatch : ∀ bytes store, (BlobStore.get x.1 x.2).run lib.store = (.ok (some bytes), store) →
      Address.ofContent bytes ≠ x.2 → error (.mismatch ⟨x.2, .ofContent bytes⟩) { lib with store })
    (hdecode : ∀ bytes store e, (BlobStore.get x.1 x.2).run lib.store = (.ok (some bytes), store) →
      Definition.decode bytes x.1 = .error e → error (.decode e) { lib with store }) :
    (fetchDefinition x).Ends lib ok error := by
  refine .bind (ends_fetch ?_ ?_ hstore hmismatch)
  · intro store hget
    dsimp only
    exact .pure (hnone store hget)
  · intro bytes store hget haddress
    dsimp only
    refine .bind (ends_liftError ?_ fun e he => hdecode bytes store e hget he)
    intro d hd
    exact .pure (hsome bytes store d hget haddress hd)

end Library

end AddressedF
