import AddressedF.Proofs.Integrity
import AddressedF.Proofs.Loadable

/-!
# Resolving References

What asking for a definition gives, and what is then known: the definition can be had if it is loadable, and
what it depends on is loaded with it, and nothing else.

## Main Definitions

* `Library.Fault`: what may be wrong with the definitions that are needed
* `Library.resolving`: loading from a store that presents a content without cycles
* `Library.Resolved`: what is said of the result of asking for a term

## Main Results

* `Library.ends_loadKey`, `Library.ends_getKey`: what loading a definition comes to
* `Library.Session.resolution`: asking for a term resolves it, in any order of the references

## Design Notes

The depth of loading is counted by the stored definitions that are still below.  Since there is no cycle these
get fewer with each reference that is followed.
-/

namespace AddressedF.Library

open Stateful

variable {σ : Type} {content : Content} {known : Signature}

/-- What may be wrong with definitions that are not known: a needed one is not there, its bytes belong to
another address or are no definition, or it does not check although all it mentions is loadable. -/
inductive Fault (known : Signature) (content : Content) (needed : Key → Prop) : LibraryError → Prop where
  | undefined {x : Key} : needed x → Missing known content x →
    Fault known content needed (.typing (undefined x))
  | mismatch {x : Key} {bytes : List UInt8} : needed x → known.find? x = none → content x = some bytes →
    Address.ofContent bytes ≠ x.2 → Fault known content needed (.mismatch ⟨x.2, .ofContent bytes⟩)
  | decode {x : Key} {bytes : List UInt8} {err : DecodeError} : needed x → known.find? x = none →
    content x = some bytes → Definition.decode bytes x.1 = .error err → Fault known content needed (.decode err)
  | typing {x : Key} {d : Definition} {err : TypeError} (sig : Signature) : needed x → known.find? x = none →
    content.Holds x d → (∀ y ∈ d.mentions, ∃ e, sig.find? y = some e ∧ Loadable known content y e) →
    sig.check d = .error err → Fault known content needed (.typing err)

/-- A key that one of the roots depends on. -/
def Needed (known : Signature) (content : Content) (roots : Set Key) (x : Key) : Prop :=
  ∃ r ∈ roots, Reaches known content r x

/-- The library has still the same store, and its signature is what was known and loadable entries under some
of the needed keys. -/
structure Resolving (known : Signature) (content : Content) (needed : Key → Prop) (store : σ)
    (lib : Library σ) : Prop where
  store_eq : lib.store = store
  intact : lib.signature.Intact
  sub : known.Sub lib.signature
  of_find? : ∀ {x e}, lib.signature.find? x = some e →
    known.find? x = some e ∨ needed x ∧ Loadable known content x e

namespace Resolving

variable {needed : Key → Prop} {store : σ} {lib : Library σ} {x : Key} {e : Entry}

theorem loadable (h : Resolving known content needed store lib) (he : lib.signature.find? x = some e) :
    Loadable known content x e := by
  rcases h.of_find? he with he | ⟨-, he⟩
  · exact .known he
  · exact he

theorem find?_known (h : Resolving known content needed store lib) (hx : lib.signature.find? x = none) :
    known.find? x = none := by
  cases hknown : known.find? x with
  | none => rfl
  | some e =>
    rw [h.sub.find? hknown] at hx
    cases hx

/-- What a known definition depends on is known. -/
theorem exists_find?_of_reaches {y : Key} (h : Resolving known content needed store lib)
    (hx : lib.signature.find? x = some e) (hxy : Reaches known content x y) :
    ∃ e', lib.signature.find? y = some e' := by
  induction hxy with
  | refl => exact ⟨e, hx⟩
  | tail _ hyz ih =>
    obtain ⟨e', he'⟩ := ih
    cases hyz with
    | known he hz => exact h.intact.exists_entry (h.sub.find? he) _ hz
    | stored hy hd hz =>
      obtain rfl := hd.unique ((h.loadable he').holds hy)
      exact h.intact.exists_entry he' _ hz

end Resolving

/-- Loading from a store that presents a content without cycles. -/
def resolving [BlobStore σ] {store : σ} (hstore : BlobStore.Presents store content)
    (hacyclic : content.Acyclic) (known : Signature) (roots : Set Key) : Regime σ where
  inv := Resolving known content (Needed known content roots) store
  allowed n x := Needed known content roots x ∧ content.below x ≤ n
  missing := Missing known content
  found x d := known.find? x = none ∧ content.Holds x d
  fails := Fault known content (Needed known content roots)
  space_eq h := by
    obtain ⟨-, bytes, -, -, hd⟩ := h
    exact (Definition.decode_eq_ok_iff.mp hd).1
  fetch {n x lib} hlib hx hnone := by
    have hknown := hlib.find?_known hnone
    have hget : ∀ {r s}, (BlobStore.get x.1 x.2).run lib.store = (r, s) →
        r = .ok (content x) ∧ s = lib.store := by
      intro r s hrun
      rw [hlib.store_eq, hstore.run_get x] at hrun
      cases hrun
      exact ⟨rfl, hlib.store_eq.symm⟩
    refine ends_fetchDefinition ?_ ?_ ?_ ?_ ?_
    · intro s hrun
      obtain ⟨hr, rfl⟩ := hget hrun
      exact ⟨hlib, rfl, hknown, (Except.ok.inj hr).symm⟩
    · intro bytes s d hrun haddress hd
      obtain ⟨hr, rfl⟩ := hget hrun
      exact ⟨hlib, rfl, hknown, bytes, (Except.ok.inj hr).symm, haddress, hd⟩
    · intro e s hrun
      obtain ⟨hr, -⟩ := hget hrun
      cases hr
    · intro bytes s hrun haddress
      obtain ⟨hr, rfl⟩ := hget hrun
      exact ⟨hlib, rfl, .mismatch hx.1 hknown (Except.ok.inj hr).symm haddress⟩
    · intro bytes s e hrun he
      obtain ⟨hr, rfl⟩ := hget hrun
      exact ⟨hlib, rfl, .decode hx.1 hknown (Except.ok.inj hr).symm he⟩
  allowed_mentions {n x d} hx hd y hy := by
    obtain ⟨⟨r, hr, hrx⟩, hn⟩ := hx
    have hlt := Content.below_lt_of_mentions hstore.finite hacyclic hd.2 hy
    exact ⟨⟨r, hr, hrx.tail (.stored hd.1 hd.2 hy)⟩, by omega⟩
  fails_circular hx hd := by
    have hpos := Content.below_pos hstore.finite hd.2
    exact absurd hx.2 (by omega)
  fails_undefined hx hmissing := .undefined hx.1 hmissing
  fails_check {n x d lib err} hlib hx hd hmentions herr := by
    refine .typing lib.signature hx.1 hd.1 hd.2 ?_ herr
    intro y hy
    obtain ⟨e, he⟩ := hmentions y hy
    exact ⟨e, he, hlib.loadable he⟩
  inv_record {n x d lib e} hlib hx hd he := by
    obtain ⟨bytes, hbytes, haddress, hdecode⟩ := hd.2
    obtain ⟨hspace, hencode⟩ := Definition.decode_eq_ok_iff.mp hdecode
    refine ⟨hlib.store_eq, hlib.intact.record hencode haddress he, hlib.sub.trans (.record ..), ?_⟩
    intro y e' he'
    by_cases hold : lib.signature.find? y = some e'
    · exact hlib.of_find? hold
    · obtain ⟨rfl, -, rfl⟩ := Signature.eq_of_find?_record he' hold
      rw [Signature.definition_of_check he, hspace]
      refine .inr ⟨hx.1, .stored lib.signature hd.1 hd.2 ?_ he⟩
      intro z hz e'' he''
      exact hlib.loadable he''

/-- Nothing is wrong with what loadable definitions depend on. -/
theorem not_fault {roots : Set Key} (hknown : known.Intact)
    (hroots : ∀ r ∈ roots, ∃ e, Loadable known content r e) (err : LibraryError) :
    ¬Fault known content (Needed known content roots) err := by
  intro h
  have hneeded : ∀ x, Needed known content roots x → known.find? x = none →
      ∃ e, Loadable known content x e ∧ content.Holds x e.definition := by
    rintro x ⟨r, hr, hrx⟩ hx
    obtain ⟨e, he⟩ := hroots r hr
    obtain ⟨e', he'⟩ := he.reaches hknown hrx
    exact ⟨e', he', he'.holds hx⟩
  cases h with
  | undefined hx hmissing =>
    obtain ⟨e, he, -⟩ := hneeded _ hx hmissing.1
    exact he.not_missing hmissing
  | mismatch hx hnone hbytes haddress =>
    obtain ⟨e, -, bytes, hbytes', haddress', -⟩ := hneeded _ hx hnone
    cases hbytes.symm.trans hbytes'
    exact haddress haddress'
  | decode hx hnone hbytes herr =>
    obtain ⟨e, -, bytes, hbytes', -, hd⟩ := hneeded _ hx hnone
    cases hbytes.symm.trans hbytes'
    cases herr.symm.trans hd
  | @typing x d err sig hx hnone hd hmentions herr =>
    obtain ⟨e, he, -⟩ := hneeded _ hx hnone
    cases he with
    | known he => cases hnone.symm.trans he
    | @stored _ d' _ sig' _ hd' hmentions' he =>
      obtain rfl := hd.unique hd'
      -- both signatures have the loadable entries for what is mentioned
      have hcheck : sig.check d = sig'.check d := by
        refine Signature.check_congr ?_
        intro y hy
        obtain ⟨e₁, he₁, hloadable⟩ := hmentions y hy
        obtain ⟨e₂, he₂⟩ := Signature.exists_entry_of_check he hy
        rw [he₁, he₂, hloadable.unique (hmentions' y hy e₂ he₂)]
      cases herr.symm.trans (hcheck.trans he)

theorem needed_singleton {x y : Key} : Needed known content {x} y ↔ Reaches known content x y := by
  constructor
  · rintro ⟨_, rfl, hy⟩
    exact hy
  · intro hy
    exact ⟨x, rfl, hy⟩

/-- If only missing definitions can be wrong, something is missing. -/
theorem Fault.undefined_of_unspoiled {x : Key} {err : LibraryError}
    (h : Fault known content (Needed known content {x}) err) (hunspoiled : Unspoiled known content x)
    (hx : ¬Missing known content x) :
    ∃ y, Relation.TransGen (Refers known content) x y ∧ Missing known content y ∧
      err = .typing (Library.undefined y) := by
  cases h with
  | @undefined y hy hmissing =>
    rcases Relation.reflTransGen_iff_eq_or_transGen.mp (needed_singleton.mp hy) with rfl | hxy
    · exact (hx hmissing).elim
    · exact ⟨y, hxy, hmissing, rfl⟩
  | mismatch hy hnone hbytes haddress =>
    obtain ⟨d, bytes, hbytes', haddress', -⟩ := hunspoiled.holds (needed_singleton.mp hy) hnone hbytes
    cases hbytes.symm.trans hbytes'
    exact (haddress haddress').elim
  | decode hy hnone hbytes herr =>
    obtain ⟨d, bytes, hbytes', -, hd⟩ := hunspoiled.holds (needed_singleton.mp hy) hnone hbytes
    cases hbytes.symm.trans hbytes'
    cases herr.symm.trans hd
  | typing sig hy hnone hd hmentions herr =>
    obtain ⟨e, he⟩ := hunspoiled.checks (needed_singleton.mp hy) hnone hd hmentions
    cases herr.symm.trans he

section Results

variable {lib : Library σ} {x : Key} {roots : Set Key}

theorem Resolving.refl (hlib : lib.signature.Intact) {needed : Key → Prop} :
    Resolving lib.signature content needed lib.store lib :=
  ⟨rfl, hlib, .refl _, .inl⟩

/-- What is said of the result of asking for a definition and of the library that is left. -/
structure Resolved (lib : Library σ) (content : Content) (x : Key) (result : Except LibraryError Entry)
    (lib' : Library σ) : Prop where
  /-- Nothing is written. -/
  store_eq : lib'.store = lib.store
  /-- The definition is had exactly if it is loadable, with its loadable entry. -/
  ok_iff : ∀ e, result = .ok e ↔ Loadable lib.signature content x e
  /-- Whatever the result is, nothing but what is needed and loadable becomes known. -/
  find?_cases : ∀ y e, lib'.signature.find? y = some e →
    lib.signature.find? y = some e ∨ Reaches lib.signature content x y ∧ Loadable lib.signature content y e
  /-- What is known after success is what was known before, and all that the definition depends on. -/
  find?_iff : ∀ e₀, result = .ok e₀ → ∀ y e, lib'.signature.find? y = some e ↔
    lib.signature.find? y = some e ∨ Reaches lib.signature content x y ∧ Loadable lib.signature content y e
  /-- Only the definition that was asked for may be not found, and it is so exactly if it is missing. -/
  notFound_iff : ∀ y : Key, result = .error (.notFound y.1 y.2) ↔ y = x ∧ Missing lib.signature content x
  /-- If something is missing that the definition depends on, and nothing else is wrong, then one of the missing
  definitions is said to be undefined. -/
  undefined_of_missing : Unspoiled lib.signature content x →
    (∃ y, Relation.TransGen (Refers lib.signature content) x y ∧ Missing lib.signature content y) →
    ∃ y, Relation.TransGen (Refers lib.signature content) x y ∧ Missing lib.signature content y ∧
      result = .error (.typing (undefined y))
  /-- The depth of loading is enough. -/
  not_circular : ∀ y : Key, result ≠ .error (.circular y.1 y.2)

theorem resolved_ok {lib' : Library σ} {e : Entry}
    (h : Resolving lib.signature content (Needed lib.signature content {x}) lib.store lib')
    (he : lib'.signature.find? x = some e) : Resolved lib content x (.ok e) lib' := by
  have hloadable := h.loadable he
  have hcases : ∀ y e', lib'.signature.find? y = some e' → lib.signature.find? y = some e' ∨
      Reaches lib.signature content x y ∧ Loadable lib.signature content y e' := by
    intro y e' he'
    exact (h.of_find? he').imp_right fun hy => ⟨needed_singleton.mp hy.1, hy.2⟩
  refine ⟨h.store_eq, ?_, hcases, ?_, ?_, ?_, ?_⟩
  · intro e'
    constructor
    · rintro ⟨⟩
      exact hloadable
    · intro h'
      rw [hloadable.unique h']
  · intro _ _ y e'
    refine ⟨hcases y e', ?_⟩
    rintro (he' | ⟨hy, hy'⟩)
    · exact h.sub.find? he'
    · obtain ⟨e'', he''⟩ := h.exists_find?_of_reaches he hy
      rwa [hy'.unique (h.loadable he'')]
  · intro y
    constructor
    · rintro ⟨⟩
    · rintro ⟨-, hx⟩
      exact (hloadable.not_missing hx).elim
  · rintro - ⟨y, hxy, hy⟩
    obtain ⟨e', he'⟩ := h.exists_find?_of_reaches he hxy.to_reflTransGen
    exact ((h.loadable he').not_missing hy).elim
  · rintro y ⟨⟩

theorem resolved_error {lib' : Library σ} {err : LibraryError} (hlib : lib.signature.Intact)
    (h : Resolving lib.signature content (Needed lib.signature content {x}) lib.store lib')
    (herr : Missing lib.signature content x ∧ err = .notFound x.1 x.2 ∨
      ¬Missing lib.signature content x ∧ Fault lib.signature content (Needed lib.signature content {x}) err) :
    Resolved lib content x (.error err) lib' := by
  refine ⟨h.store_eq, ?_, ?_, ?_, ?_, ?_, ?_⟩
  · intro e
    constructor
    · rintro ⟨⟩
    · intro he
      rcases herr with ⟨hx, -⟩ | ⟨-, hfault⟩
      · exact (he.not_missing hx).elim
      · exact (not_fault hlib (fun r hr => ⟨e, hr ▸ he⟩) err hfault).elim
  · intro y e' he'
    exact (h.of_find? he').imp_right fun hy => ⟨needed_singleton.mp hy.1, hy.2⟩
  · rintro _ ⟨⟩
  · intro y
    rcases herr with ⟨hx, rfl⟩ | ⟨hx, hfault⟩
    · constructor
      · intro heq
        obtain ⟨hspace, haddress⟩ := LibraryError.notFound.inj (Except.error.inj heq)
        exact ⟨(Prod.ext hspace haddress).symm, hx⟩
      · rintro ⟨rfl, -⟩
        rfl
    · constructor
      · rintro ⟨⟩
        cases hfault
      · rintro ⟨-, hx'⟩
        exact (hx hx').elim
  · rintro hunspoiled ⟨y, hxy, hy⟩
    rcases herr with ⟨hx, -⟩ | ⟨hx, hfault⟩
    · obtain ⟨z, hxz, -⟩ := Relation.TransGen.head'_iff.mp hxy
      exact (hx.not_refers hxz).elim
    · obtain ⟨z, hxz, hz, rfl⟩ := hfault.undefined_of_unspoiled hunspoiled hx
      exact ⟨z, hxz, hz, rfl⟩
  · rintro y ⟨⟩
    rcases herr with ⟨-, heq⟩ | ⟨-, hfault⟩
    · cases heq
    · cases hfault

variable [BlobStore σ]

/-- The definitions below a root are few enough for the depth of the store. -/
theorem resolving_allowed (hstore : BlobStore.Presents lib.store content) (hacyclic : content.Acyclic)
    (hx : x ∈ roots) {n : Nat} (hn : BlobStore.capacity lib.store ≤ n) :
    (resolving hstore hacyclic lib.signature roots).allowed n x :=
  ⟨⟨x, hx, .refl⟩, (Content.below_le hstore.finite x).trans (hstore.ncard_le.trans hn)⟩

theorem ends_loadKey (hlib : lib.signature.Intact) (hstore : BlobStore.Presents lib.store content)
    (hacyclic : content.Acyclic) (x : Key) :
    (loadKey x).Ends lib
      (fun e? lib' => Resolving lib.signature content (Needed lib.signature content {x}) lib.store lib' ∧
        e?.elim (Missing lib.signature content x) fun e => lib'.signature.find? x = some e)
      fun err lib' => Resolving lib.signature content (Needed lib.signature content {x}) lib.store lib' ∧
        Fault lib.signature content (Needed lib.signature content {x}) err := by
  have hload : (resolving hstore hacyclic lib.signature {x}).Loads (loadKey x) x := by
    refine Regime.loads_loadKey ?_
    intro lib' hlib'
    have hcapacity : BlobStore.capacity lib.store ≤ BlobStore.capacity lib'.store := hlib'.store_eq ▸ le_rfl
    exact resolving_allowed hstore hacyclic (Set.mem_singleton x) hcapacity
  exact (hload lib (.refl hlib)).mono (fun _ _ h => ⟨h.1.inv, h.2⟩) fun _ _ h => ⟨h.1.inv, h.2⟩

theorem ends_getKey (hlib : lib.signature.Intact) (hstore : BlobStore.Presents lib.store content)
    (hacyclic : content.Acyclic) (x : Key) :
    (getKey x).Ends lib
      (fun e lib' => Resolving lib.signature content (Needed lib.signature content {x}) lib.store lib' ∧
        lib'.signature.find? x = some e)
      fun err lib' => Resolving lib.signature content (Needed lib.signature content {x}) lib.store lib' ∧
        (Missing lib.signature content x ∧ err = .notFound x.1 x.2 ∨
          Fault lib.signature content (Needed lib.signature content {x}) err) := by
  refine .bind ((ends_loadKey hlib hstore hacyclic x).mono ?_ fun err lib' h => ⟨h.1, .inr h.2⟩)
  rintro e? lib' ⟨hlib', he⟩
  cases e? with
  | none => exact .throw ⟨hlib', .inl ⟨he, rfl⟩⟩
  | some e => exact .pure ⟨hlib', he⟩

/-- A definition is checked once all it mentions is loaded. -/
theorem ends_checkDefinition (hlib : lib.signature.Intact) (hstore : BlobStore.Presents lib.store content)
    (hacyclic : content.Acyclic) (d : Definition) :
    (checkDefinition d).Ends lib
      (fun e lib' =>
        Resolving lib.signature content (Needed lib.signature content {y | y ∈ d.mentions}) lib.store lib' ∧
          lib'.signature.check d = .ok e)
      fun err lib' =>
        Resolving lib.signature content (Needed lib.signature content {y | y ∈ d.mentions}) lib.store lib' ∧
          (Fault lib.signature content (Needed lib.signature content {y | y ∈ d.mentions}) err ∨
            Regime.Known lib' d.mentions ∧ ∃ e, lib'.signature.check d = .error e) := by
  have hcheck := Regime.ends_checkDefinition (R := resolving hstore hacyclic lib.signature {y | y ∈ d.mentions})
    (d := d) ?_ (.refl hlib)
  · refine hcheck.mono (fun e lib' h => ⟨h.1.inv, h.2⟩) ?_
    rintro err lib' ⟨hafter, hfault | ⟨e, -, hmentions, he⟩⟩
    · exact ⟨hafter.inv, .inl hfault⟩
    · exact ⟨hafter.inv, .inr ⟨hmentions, e, he⟩⟩
  · intro y hy lib' hlib'
    have hcapacity : BlobStore.capacity lib.store ≤ BlobStore.capacity lib'.store := hlib'.store_eq ▸ le_rfl
    exact resolving_allowed hstore hacyclic hy hcapacity

/-- What is missing is looked for in the store and not found there. -/
theorem ends_getKey_of_missing (hstore : BlobStore.Presents lib.store content)
    (hx : Missing lib.signature content x) :
    (getKey x).Ends lib (fun _ _ => False) fun err _ => err = .notFound x.1 x.2 := by
  have hget : ∀ {r s}, (BlobStore.get x.1 x.2).run lib.store = (r, s) → r = .ok none := by
    intro r s hrun
    rw [hstore.run_get x, hx.2] at hrun
    exact (Prod.mk.inj hrun).1.symm
  refine .bind (.bind (ends_depth ?_))
  rw [load_eq]
  refine .bind (ends_known ?_)
  rw [hx.1]
  refine .bind (ends_fetchDefinition ?_ ?_ ?_ ?_ ?_)
  · intro s _
    exact .pure (.throw rfl)
  · intro bytes s d hrun
    cases hget hrun
  · intro e s hrun
    cases hget hrun
  · intro bytes s hrun
    cases hget hrun
  · intro bytes s e hrun
    cases hget hrun

theorem resolved_getKey (hlib : lib.signature.Intact) (hstore : BlobStore.Presents lib.store content)
    (hacyclic : content.Acyclic) (x : Key) :
    Resolved lib content x ((getKey x).run lib).1 ((getKey x).run lib).2 := by
  have hends := ends_getKey hlib hstore hacyclic x
  rcases hrun : (getKey x).run lib with ⟨result, lib'⟩
  cases result with
  | ok e =>
    obtain ⟨h, he⟩ := hends.of_run_ok hrun
    exact resolved_ok h he
  | error err =>
    obtain ⟨h, herr⟩ := hends.of_run_error hrun
    refine resolved_error hlib h ?_
    by_cases hx : Missing lib.signature content x
    · exact .inl ⟨hx, (ends_getKey_of_missing hstore hx).of_run_error hrun⟩
    · exact .inr ⟨hx, herr.resolve_left fun h => hx h.1⟩

/-- More depth than the store asks for makes no difference. -/
theorem run_load_of_le (hlib : lib.signature.Intact) (hstore : BlobStore.Presents lib.store content)
    (hacyclic : content.Acyclic) (x : Key) {n : Nat} (hn : BlobStore.capacity lib.store ≤ n) :
    (load n x).run lib = (load (BlobStore.capacity lib.store) x).run lib := by
  refine Regime.agree_load (R := resolving hstore hacyclic lib.signature {x}) ?_
    (resolving_allowed hstore hacyclic (Set.mem_singleton x) hn)
    (resolving_allowed hstore hacyclic (Set.mem_singleton x) le_rfl) lib (.refl hlib)
  intro y d hy hd
  have hpos := Content.below_pos hstore.finite hd.2
  exact absurd hy.2 (by omega)

end Results

/-- Asking for a term resolves it in any library of a session whose store presents a content without cycles.
The depth of loading is never used up, so the references may as well be followed without end.  And the order in
which they are gone through matters neither to the term and its type nor to what is known in the end. -/
theorem Session.resolution [NameStore σ] {lib : Library σ} (h : lib.Session)
    (hstore : BlobStore.Presents lib.store content) (hacyclic : content.Acyclic) (a : Address) :
    Resolved lib content (.term, a) (((getTerm a).run lib).1.map .term) ((getTerm a).run lib).2 ∧
      (∀ depth, BlobStore.capacity lib.store ≤ depth →
        (loadTermWithin depth a).run lib = (loadTerm a).run lib) ∧
      ∀ schedule e, ((getTerm a).run lib).1 = .ok e →
        ((getTerm a).run { lib with schedule }).1 = .ok e ∧
          ∀ y, ((getTerm a).run { lib with schedule }).2.signature.find? y =
            ((getTerm a).run lib).2.signature.find? y := by
  have hresolved : ∀ schedule, Resolved lib content (.term, a)
      (((getTerm a).run { lib with schedule }).1.map .term) ((getTerm a).run { lib with schedule }).2 := by
    intro schedule
    have hget := resolved_getKey (h.outside lib.store schedule).intact hstore hacyclic (.term, a)
    rw [getKey_term, run_map] at hget
    exact ⟨hget.store_eq, hget.ok_iff, hget.find?_cases, hget.find?_iff, hget.notFound_iff,
      hget.undefined_of_missing, hget.not_circular⟩
  refine ⟨hresolved lib.schedule, ?_, ?_⟩
  · intro depth hdepth
    have hload := run_load_of_le h.intact hstore hacyclic (.term, a) hdepth
    exact run_eq_of_run_map (Option.map_injective fun _ _ => Entry.term.inj) hload
  · intro schedule e he
    have hthis := hresolved lib.schedule
    have hthat := hresolved schedule
    have hok : (((getTerm a).run lib).1.map .term) = .ok (Entry.term e) := by rw [he]; rfl
    have hok' := (hthat.ok_iff _).mpr ((hthis.ok_iff _).mp hok)
    refine ⟨?_, ?_⟩
    · obtain ⟨e', he', heq⟩ := map_eq_ok_iff.mp hok'
      rw [he', Entry.term.inj heq]
    · intro y
      refine Option.ext fun e' => ?_
      exact (hthat.find?_iff _ hok' y e').trans (hthis.find?_iff _ hok y e').symm

/-- A store with zero and the definition of numbers, on which zero depends. -/
def numeralStore : MemoryStore where
  blobs := (Table.empty.insert (.type, Numeral.digest) Numeral.bytes).insert (.term, Numeral.zeroDigest)
    ((Numeral.zero Numeral.digest).encode.toOption.getD [])
  names := .empty

theorem getTerm_zeroDigest :
    let run := (getTerm Numeral.zeroDigest).run (.new numeralStore)
    run.1.toOption = some ⟨Numeral.zero Numeral.digest, .ref Numeral.digest⟩ ∧
      run.2.signature.types.size = 1 := by
  decide +kernel

theorem resolution_numeral :
    let lib := Library.new numeralStore
    let run := (getTerm Numeral.zeroDigest).run lib
    (lib.Session ∧ BlobStore.Presents lib.store numeralStore.content ∧ numeralStore.content.Acyclic) ∧
      run.1.toOption = some ⟨Numeral.zero Numeral.digest, .ref Numeral.digest⟩ ∧
      run.2.signature.types.size = 1 ∧
      Resolved lib numeralStore.content (.term, Numeral.zeroDigest) (run.1.map .term) run.2 ∧
      (∀ depth, BlobStore.capacity lib.store ≤ depth →
        (loadTermWithin depth Numeral.zeroDigest).run lib = (loadTerm Numeral.zeroDigest).run lib) ∧
      ∀ schedule e, run.1 = .ok e →
        ((getTerm Numeral.zeroDigest).run { lib with schedule }).1 = .ok e ∧
          ∀ y, ((getTerm Numeral.zeroDigest).run { lib with schedule }).2.signature.find? y =
            run.2.signature.find? y := by
  have hsession : (Library.new numeralStore).Session := .new numeralStore
  have hranked : numeralStore.isRanked fun x => if x.1 = .type then 0 else 1 := by decide +kernel
  have hacyclic := MemoryStore.acyclic_of_isRanked hranked
  obtain ⟨hzero, hsize⟩ := getTerm_zeroDigest
  exact ⟨⟨hsession, numeralStore.presents, hacyclic⟩, hzero, hsize,
    hsession.resolution numeralStore.presents hacyclic Numeral.zeroDigest⟩

end AddressedF.Library
