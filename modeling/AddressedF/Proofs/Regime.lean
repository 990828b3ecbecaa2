import AddressedF.Proofs.Loading

/-!
# What Loading Keeps

Loading goes down along the references of definitions and records on the way back.  A regime says what holds of
the library all the time, which definitions may be met, and what an error says.  If each single step keeps to
it, so does loading.

## Main Definitions

* `Library.Regime`: what loading relies on and what it keeps

## Main Results

* `Library.Regime.loads_load`, `Library.Regime.ends_checkDefinition`: loading and checking keep to a regime
* `Library.Regime.agree_load`: where the depth is never used up, it does not matter

## Design Notes

The depth is counted down by what may be loaded, not by the recursion alone, so that a regime can say why the
depth is enough or that it need not be.
-/

namespace AddressedF.Library

open Stateful

variable {σ : Type} [BlobStore σ]

/-- What loading relies on and what it keeps. -/
structure Regime (σ : Type) [BlobStore σ] where
  /-- Holds of the library all the time. -/
  inv : Library σ → Prop
  /-- The keys that may be loaded through at most so many definitions. -/
  allowed : Nat → Key → Prop
  /-- The keys that the store may lack. -/
  missing : Key → Prop
  /-- The definitions that the store may have. -/
  found : Key → Definition → Prop
  /-- What may go wrong. -/
  fails : LibraryError → Prop
  space_eq : ∀ {x d}, found x d → d.space = x.1
  fetch : ∀ {n x lib}, inv lib → allowed n x → lib.signature.find? x = none →
    (fetchDefinition x).Ends lib
      (fun d? lib' => inv lib' ∧ lib'.signature = lib.signature ∧ d?.elim (missing x) (found x))
      fun e lib' => inv lib' ∧ lib'.signature = lib.signature ∧ fails e
  allowed_mentions : ∀ {n x d}, allowed (n + 1) x → found x d → ∀ y ∈ d.mentions, allowed n y
  fails_circular : ∀ {x d}, allowed 0 x → found x d → fails (.circular x.1 x.2)
  fails_undefined : ∀ {n x}, allowed n x → missing x → fails (.typing (undefined x))
  fails_check : ∀ {n x d lib err}, inv lib → allowed n x → found x d →
    (∀ y ∈ d.mentions, ∃ e, lib.signature.find? y = some e) → lib.signature.check d = .error err →
    fails (.typing err)
  inv_record : ∀ {n x d lib e}, inv lib → allowed n x → found x d → lib.signature.check d = .ok e →
    inv { lib with signature := lib.signature.record x.2 e }

namespace Regime

variable (R : Regime σ) {lib lib' lib'' : Library σ} {x : Key} {d : Definition} {n : Nat}

/-- One state of the library comes after another. -/
structure After (lib lib' : Library σ) : Prop where
  inv : R.inv lib'
  sub : lib.signature.Sub lib'.signature

variable {R}

theorem After.refl (hlib : R.inv lib) : R.After lib lib := ⟨hlib, .refl _⟩

theorem After.trans (h : R.After lib lib') (h' : R.After lib' lib'') : R.After lib lib'' :=
  ⟨h'.inv, h.sub.trans h'.sub⟩

theorem After.of_eq (hlib : R.inv lib') (h : lib'.signature = lib.signature) : R.After lib lib' :=
  ⟨hlib, h ▸ .refl _⟩

variable (R)

/-- The keys have entries. -/
def Known (lib : Library σ) (xs : List Key) : Prop :=
  ∀ x ∈ xs, ∃ e, lib.signature.find? x = some e

/-- A step that loads some keys leaves a later state in which they are known, or fails. -/
def Provides (step : LibraryM σ Unit) (xs : List Key) : Prop :=
  ∀ lib, R.inv lib → step.Ends lib (fun _ lib' => R.After lib lib' ∧ Known lib' xs)
    fun e lib' => R.After lib lib' ∧ R.fails e

/-- A step that loads a key leaves a later state in which it is known, or which lacks it in the store. -/
def Loads (step : LibraryM σ (Option Entry)) (x : Key) : Prop :=
  ∀ lib, R.inv lib → step.Ends lib
    (fun e? lib' => R.After lib lib' ∧ e?.elim (R.missing x) fun e => lib'.signature.find? x = some e)
    fun e lib' => R.After lib lib' ∧ R.fails e

variable {R}

omit [BlobStore σ] in
theorem Known.mono {xs : List Key} (h : Known lib xs) (hsub : lib.signature.Sub lib'.signature) :
    Known lib' xs := by
  intro x hx
  obtain ⟨e, he⟩ := h x hx
  exact ⟨e, hsub.find? he⟩

theorem provides_requireAll {load : Key → LibraryM σ (Option Entry)} {space : Space} {as : List Address}
    (hload : ∀ a ∈ as, R.Loads (load (space, a)) (space, a))
    (hmissing : ∀ a ∈ as, R.missing (space, a) → R.fails (.typing (undefined (space, a)))) :
    R.Provides (requireAll (fun a => load (space, a)) (fun a => undefined (space, a)) as)
      (as.map (space, ·)) := by
  intro lib hlib
  have hmem : ∀ {a}, a ∈ lib.schedule.arrange as.eraseDups ↔ a ∈ as := by
    intro a
    rw [(lib.schedule.perm _).mem_iff, List.mem_eraseDups]
  refine .bind (ends_arranged (.mono (.forM R.inv (fun lib lib' => lib.signature.Sub lib'.signature)
    (fun a lib => ∃ e, lib.signature.find? (space, a) = some e) R.fails
    (fun lib => .refl lib.signature) .trans ?_ ?_ hlib) ?_ ?_))
  · rintro a lib lib' hsub ⟨e, he⟩
    exact ⟨e, hsub.find? he⟩
  · intro a ha lib hlib
    refine .bind ((hload a (hmem.mp ha) lib hlib).mono ?_ ?_)
    · rintro e? lib' ⟨hafter, he⟩
      cases e? with
      | none => exact .throw ⟨hafter.inv, hafter.sub, hmissing a (hmem.mp ha) he⟩
      | some e => exact .pure ⟨hafter.inv, hafter.sub, e, he⟩
    · rintro err lib' ⟨hafter, herr⟩
      exact ⟨hafter.inv, hafter.sub, herr⟩
  · rintro - lib' ⟨hlib', hsub, hall⟩
    refine ⟨⟨hlib', hsub⟩, ?_⟩
    intro x hx
    obtain ⟨a, ha, rfl⟩ := List.mem_map.mp hx
    exact hall a (hmem.mpr ha)
  · rintro err lib' ⟨hlib', hsub, herr⟩
    exact ⟨⟨hlib', hsub⟩, herr⟩

/-- What is known of the result of loading some keys. -/
def Settles (lib : Library σ) (xs : List Key) : Except LibraryError Unit → Prop
  | .ok _ => Known lib xs
  | .error e => R.fails e

theorem Provides.attempt {step : LibraryM σ Unit} {xs : List Key} (h : R.Provides step xs)
    {error : LibraryError → Library σ → Prop} (hlib : R.inv lib) :
    (Stateful.attempt step).Ends lib (fun r lib' => R.After lib lib' ∧ R.Settles lib' xs r) error :=
  .attempt (h lib hlib)

theorem Settles.mono {xs : List Key} {r : Except LibraryError Unit} (h : R.Settles lib xs r)
    (hsub : lib.signature.Sub lib'.signature) : R.Settles lib' xs r := by
  cases r with
  | ok => exact Known.mono h hsub
  | error e => exact h

theorem ends_settleBoth {xs ys : List Key} {r r' : Except LibraryError Unit} (h : R.Settles lib' xs r)
    (h' : R.Settles lib' ys r') (hafter : R.After lib lib') :
    (settleBoth r r').Ends lib' (fun _ lib' => R.After lib lib' ∧ Known lib' (xs ++ ys))
      fun e lib' => R.After lib lib' ∧ R.fails e := by
  cases r with
  | error e => exact (Ends.error_iff rfl).mpr ⟨hafter, h⟩
  | ok =>
    cases r' with
    | error e => exact (Ends.error_iff rfl).mpr ⟨hafter, h'⟩
    | ok =>
      refine (Ends.ok_iff (a := ()) rfl).mpr ⟨hafter, ?_⟩
      intro x hx
      exact (List.mem_append.mp hx).elim (h x) (h' x)

theorem Provides.both {types terms : LibraryM σ Unit} {xs ys : List Key} (htypes : R.Provides types xs)
    (hterms : R.Provides terms ys) : R.Provides (requireBoth types terms) (xs ++ ys) := by
  intro lib hlib
  refine .bind (.get ?_)
  split
  · refine .bind ((htypes.attempt hlib).mono ?_ fun _ _ h => h)
    rintro r lib₁ ⟨hafter₁, hr⟩
    refine .bind ((hterms.attempt hafter₁.inv).mono ?_ fun _ _ h => h)
    rintro r' lib₂ ⟨hafter₂, hr'⟩
    exact ends_settleBoth (hr.mono hafter₂.sub) hr' (hafter₁.trans hafter₂)
  · refine .bind ((hterms.attempt hlib).mono ?_ fun _ _ h => h)
    rintro r' lib₁ ⟨hafter₁, hr'⟩
    refine .bind ((htypes.attempt hafter₁.inv).mono ?_ fun _ _ h => h)
    rintro r lib₂ ⟨hafter₂, hr⟩
    exact ends_settleBoth hr (hr'.mono hafter₂.sub) (hafter₁.trans hafter₂)

theorem provides_resolve {load : Key → LibraryM σ (Option Entry)}
    (hload : ∀ y ∈ d.mentions, R.Loads (load y) y)
    (hmissing : ∀ y ∈ d.mentions, R.missing y → R.fails (.typing (undefined y))) :
    R.Provides (resolve load d) d.mentions := by
  have htypes : R.Provides (requireAll (fun a => load (.type, a)) .undefinedType d.references.types)
      (d.references.types.map (.type, ·)) :=
    provides_requireAll (fun a ha => hload _ (Definition.mem_mentions_type.mpr ha))
      fun a ha => hmissing _ (Definition.mem_mentions_type.mpr ha)
  have hterms : R.Provides (requireAll (fun a => load (.term, a)) .undefinedTerm d.references.terms)
      (d.references.terms.map (.term, ·)) :=
    provides_requireAll (fun a ha => hload _ (Definition.mem_mentions_term.mpr ha))
      fun a ha => hmissing _ (Definition.mem_mentions_term.mpr ha)
  cases d with
  | type d =>
    simpa only [resolve, Definition.mentions, Definition.references, List.map_nil, List.append_nil] using htypes
  | term t => exact htypes.both hterms

theorem loads_loadBy {step : Definition → LibraryM σ Unit} (hx : R.allowed n x)
    (hstep : ∀ d, R.found x d → R.Provides (step d) d.mentions) : R.Loads (loadBy x step) x := by
  intro lib hlib
  refine .bind (ends_known ?_)
  cases hknown : lib.signature.find? x with
  | some e => exact .pure ⟨.refl hlib, hknown⟩
  | none =>
    refine .bind ((R.fetch hlib hx hknown).mono ?_ ?_)
    · rintro d? lib₁ ⟨hlib₁, hsig₁, hd?⟩
      have hafter₁ : R.After lib lib₁ := .of_eq hlib₁ hsig₁
      cases d? with
      | none => exact .pure ⟨hafter₁, hd?⟩
      | some d =>
        refine .bind ((hstep d hd? lib₁ hlib₁).mono ?_ ?_)
        · rintro - lib₂ ⟨hafter₂, hmentions⟩
          refine .bind (ends_known (.bind (ends_liftError ?_ ?_)))
          · intro e he
            refine .bind (ends_record (.bind (ends_known (.pure ⟨?_, ?_⟩))))
            · exact (hafter₁.trans hafter₂).trans ⟨R.inv_record hafter₂.inv hx hd? he, .record ..⟩
            · have hspace : e.definition.space = x.1 :=
                (congrArg _ (Signature.definition_of_check he)).trans (R.space_eq hd?)
              obtain ⟨e', he'⟩ := Signature.exists_find?_record lib₂.signature x.2 e
              rw [hspace] at he'
              simp only [he', Option.elim_some]
          · intro err herr
            exact ⟨hafter₁.trans hafter₂, R.fails_check hafter₂.inv hx hd? hmentions herr⟩
        · rintro err lib₂ ⟨hafter₂, herr⟩
          exact ⟨hafter₁.trans hafter₂, herr⟩
    · rintro err lib₁ ⟨hlib₁, hsig₁, herr⟩
      exact ⟨.of_eq hlib₁ hsig₁, herr⟩

/-- Loading keeps to its regime, by induction on how far it may go down. -/
theorem loads_load : R.allowed n x → R.Loads (load n x) x := by
  intro hx
  rw [load_eq]
  induction n generalizing x with
  | zero =>
    refine loads_loadBy hx ?_
    intro d hd lib hlib
    exact .throw ⟨.refl hlib, R.fails_circular hx hd⟩
  | succ n ih =>
    refine loads_loadBy hx ?_
    intro d hd
    have hmentions := R.allowed_mentions hx hd
    refine provides_resolve ?_ fun y hy => R.fails_undefined (hmentions y hy)
    intro y hy
    rw [load_eq]
    exact ih (hmentions y hy)

theorem loads_loadKey (hx : ∀ lib, R.inv lib → R.allowed (BlobStore.capacity lib.store) x) :
    R.Loads (loadKey x) x := by
  intro lib hlib
  exact .bind (ends_depth (loads_load (hx lib hlib) lib hlib))

/-- A definition is checked in a later state, in which all it mentions is known. -/
theorem ends_checkDefinition
    (hd : ∀ y ∈ d.mentions, ∀ lib, R.inv lib → R.allowed (BlobStore.capacity lib.store) y)
    (hlib : R.inv lib) :
    (checkDefinition d).Ends lib (fun e lib' => R.After lib lib' ∧ lib'.signature.check d = .ok e)
      fun err lib' => R.After lib lib' ∧
        (R.fails err ∨ ∃ e, err = .typing e ∧ Known lib' d.mentions ∧ lib'.signature.check d = .error e) := by
  have hresolve : R.Provides (resolve loadKey d) d.mentions :=
    provides_resolve (fun y hy => loads_loadKey (hd y hy)) fun y hy => R.fails_undefined (hd y hy lib hlib)
  refine .bind ((hresolve lib hlib).mono ?_ fun err lib' h => ⟨h.1, .inl h.2⟩)
  rintro - lib' ⟨hafter, hmentions⟩
  refine .bind (ends_known (ends_liftError ?_ ?_))
  · intro e he
    exact ⟨hafter, he⟩
  · intro err herr
    exact ⟨hafter, .inr ⟨err, rfl, hmentions, herr⟩⟩

/-! ## Depth does not matter -/

/-- Two steps do the same, as long as the library is in its regime. -/
def Agree {α : Type} (step step' : LibraryM σ α) : Prop :=
  ∀ lib, R.inv lib → step.run lib = step'.run lib

theorem agree_requireAll {load load' : Key → LibraryM σ (Option Entry)} {space : Space} {as : List Address}
    (missing : Address → TypeError) (hload : ∀ a ∈ as, R.Loads (load (space, a)) (space, a))
    (h : ∀ a ∈ as, R.Agree (load (space, a)) (load' (space, a))) :
    R.Agree (requireAll (fun a => load (space, a)) missing as)
      (requireAll (fun a => load' (space, a)) missing as) := by
  intro lib hlib
  have hmem : ∀ a ∈ lib.schedule.arrange as.eraseDups, a ∈ as := by
    intro a ha
    rwa [(lib.schedule.perm _).mem_iff, List.mem_eraseDups] at ha
  refine run_bind_congr rfl ?_
  rintro _ _ ⟨⟩
  refine run_forM_congr R.inv ?_ ?_ hlib
  · intro a ha lib hlib
    refine Ends.state (.bind ((hload a (hmem a ha) lib hlib).mono ?_ fun _ _ h => h.1.inv))
    rintro e? lib' ⟨hafter, -⟩
    split
    · exact .throw hafter.inv
    · exact .pure hafter.inv
  · intro a ha lib hlib
    exact run_bind_congr (h a (hmem a ha) lib hlib) fun _ _ _ => rfl

theorem Agree.both {types types' terms terms' : LibraryM σ Unit} {xs ys : List Key}
    (htypes : R.Provides types xs) (hterms : R.Provides terms ys) (h : R.Agree types types')
    (h' : R.Agree terms terms') : R.Agree (requireBoth types terms) (requireBoth types' terms') := by
  have hattempt : ∀ {step step' : LibraryM σ Unit}, R.Agree step step' → ∀ lib, R.inv lib →
      (Stateful.attempt step).run lib = (Stateful.attempt step').run lib := by
    intro step step' hstep lib hlib
    rw [run_attempt, run_attempt, hstep lib hlib]
  intro lib hlib
  refine run_bind_congr rfl ?_
  rintro _ _ ⟨⟩
  split
  · refine run_bind_congr (hattempt h lib hlib) ?_
    intro r lib₁ hrun
    have hends : (Stateful.attempt types).Ends lib (fun r lib' => R.After lib lib' ∧ R.Settles lib' xs r)
        fun _ _ => False := htypes.attempt hlib
    have hlib₁ := (hends.of_run_ok hrun).1.inv
    exact run_bind_congr (hattempt h' lib₁ hlib₁) fun _ _ _ => rfl
  · refine run_bind_congr (hattempt h' lib hlib) ?_
    intro r lib₁ hrun
    have hends : (Stateful.attempt terms).Ends lib (fun r lib' => R.After lib lib' ∧ R.Settles lib' ys r)
        fun _ _ => False := hterms.attempt hlib
    have hlib₁ := (hends.of_run_ok hrun).1.inv
    exact run_bind_congr (hattempt h lib₁ hlib₁) fun _ _ _ => rfl

theorem agree_resolve {load load' : Key → LibraryM σ (Option Entry)}
    (hload : ∀ y ∈ d.mentions, R.Loads (load y) y)
    (hmissing : ∀ y ∈ d.mentions, R.missing y → R.fails (.typing (undefined y)))
    (h : ∀ y ∈ d.mentions, R.Agree (load y) (load' y)) : R.Agree (resolve load d) (resolve load' d) := by
  have htype : ∀ a ∈ d.references.types, (.type, a) ∈ d.mentions :=
    fun a ha => Definition.mem_mentions_type.mpr ha
  have hterm : ∀ a ∈ d.references.terms, (.term, a) ∈ d.mentions :=
    fun a ha => Definition.mem_mentions_term.mpr ha
  have htypes := agree_requireAll .undefinedType (fun a ha => hload _ (htype a ha))
    fun a ha => h _ (htype a ha)
  have hterms := agree_requireAll .undefinedTerm (fun a ha => hload _ (hterm a ha))
    fun a ha => h _ (hterm a ha)
  cases d with
  | type d => exact htypes
  | term t =>
    exact .both (provides_requireAll (fun a ha => hload _ (htype a ha)) fun a ha => hmissing _ (htype a ha))
      (provides_requireAll (fun a ha => hload _ (hterm a ha)) fun a ha => hmissing _ (hterm a ha)) htypes hterms

theorem agree_loadBy {step step' : Definition → LibraryM σ Unit} (hx : R.allowed n x)
    (h : ∀ d, R.found x d → R.Agree (step d) (step' d)) : R.Agree (loadBy x step) (loadBy x step') := by
  intro lib hlib
  refine run_bind_congr rfl ?_
  rintro _ _ ⟨⟩
  cases hknown : lib.signature.find? x with
  | some e => rfl
  | none =>
    refine run_bind_congr rfl ?_
    intro d? lib₁ hrun
    obtain ⟨hlib₁, -, hd?⟩ := (R.fetch hlib hx hknown).of_run_ok hrun
    cases d? with
    | none => rfl
    | some d => exact run_bind_congr (h d hd? lib₁ hlib₁) fun _ _ _ => rfl

/-- Where loading never comes to the end of its depth, more depth makes no difference. -/
theorem agree_load (hzero : ∀ {x d}, R.allowed 0 x → ¬R.found x d) {m : Nat} (hn : R.allowed n x)
    (hm : R.allowed m x) : R.Agree (load n x) (load m x) := by
  induction n generalizing x m with
  | zero =>
    rw [load_eq, load_eq]
    exact agree_loadBy hn fun d hd => (hzero hn hd).elim
  | succ n ih =>
    rw [load_eq, load_eq]
    refine agree_loadBy hn ?_
    intro d hd
    have hmentions := R.allowed_mentions hn hd
    cases m with
    | zero => exact (hzero hm hd).elim
    | succ m =>
      exact agree_resolve (fun y hy => loads_load (hmentions y hy))
        (fun y hy => R.fails_undefined (hmentions y hy))
        fun y hy => ih (hmentions y hy) (R.allowed_mentions hm hd y hy)

end Regime

end AddressedF.Library
