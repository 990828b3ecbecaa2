import AddressedF.Proofs.Except
import AddressedF.Stateful

/-!
# What Computations End With

A computation on a state ends with a value or with an error, and in both cases with a new state.  What is known
about each of the two ends goes from step to step.

## Main Definitions

* `Stateful.Ends`: what holds of value and state, or of error and state, at the end of a computation

## Main Results

* `Stateful.Ends.bind` and its companions: the ends of a computation from those of its steps
* `Stateful.Ends.forM`: going through a list, where every step keeps what is known and adds to it
* `Stateful.run_bind_congr`, `Stateful.run_forM_congr`: computations whose steps do the same
-/

namespace AddressedF.Stateful

variable {ε σ α β : Type} {s : σ}

/-- From a state, a computation ends with a value and a state that `ok` holds of, or with an error and a state
that `error` holds of. -/
structure Ends (x : Stateful ε σ α) (s : σ) (ok : α → σ → Prop) (error : ε → σ → Prop) : Prop where
  of_run_ok : ∀ {a s'}, x.run s = (.ok a, s') → ok a s'
  of_run_error : ∀ {e s'}, x.run s = (.error e, s') → error e s'

namespace Ends

variable {x : Stateful ε σ α} {f : α → Stateful ε σ β} {ok ok' : α → σ → Prop} {error error' : ε → σ → Prop}
  {done : β → σ → Prop}

theorem ok_iff {a : α} {s' : σ} (h : x.run s = (.ok a, s')) : x.Ends s ok error ↔ ok a s' := by
  constructor
  · intro hx
    exact hx.of_run_ok h
  · intro ha
    constructor
    · intro _ _ hrun
      cases h.symm.trans hrun
      exact ha
    · intro _ _ hrun
      cases h.symm.trans hrun

theorem error_iff {e : ε} {s' : σ} (h : x.run s = (.error e, s')) : x.Ends s ok error ↔ error e s' := by
  constructor
  · intro hx
    exact hx.of_run_error h
  · intro he
    constructor
    · intro _ _ hrun
      cases h.symm.trans hrun
    · intro _ _ hrun
      cases h.symm.trans hrun
      exact he

/-- What holds at both ends holds of the state that is left. -/
theorem state {P : σ → Prop} (hx : x.Ends s (fun _ => P) fun _ => P) : P (x.run s).2 := by
  rcases hrun : x.run s with ⟨r, s'⟩
  cases r with
  | ok a => exact hx.of_run_ok hrun
  | error e => exact hx.of_run_error hrun

theorem of_state {P : σ → Prop} (h : P (x.run s).2) : x.Ends s (fun _ => P) fun _ => P := by
  constructor
  · intro _ _ hrun
    rwa [hrun] at h
  · intro _ _ hrun
    rwa [hrun] at h

/-- What holds at an end holds together with the run that has come to it. -/
theorem and_run (hx : x.Ends s ok error) :
    x.Ends s (fun a s' => ok a s' ∧ x.run s = (.ok a, s')) fun e s' => error e s' ∧ x.run s = (.error e, s') :=
  ⟨fun hrun => ⟨hx.of_run_ok hrun, hrun⟩, fun hrun => ⟨hx.of_run_error hrun, hrun⟩⟩

/-- A computation that can only end with one value gives it. -/
theorem run_fst_eq_ok {a : α} (hx : x.Ends s (fun b _ => b = a) fun _ _ => False) : (x.run s).1 = .ok a := by
  rcases hrun : x.run s with ⟨r, s'⟩
  cases r with
  | ok b => rw [hx.of_run_ok hrun]
  | error e => exact (hx.of_run_error hrun).elim

theorem mono (hx : x.Ends s ok error) (hok : ∀ a s', ok a s' → ok' a s')
    (herror : ∀ e s', error e s' → error' e s') : x.Ends s ok' error' :=
  ⟨fun hrun => hok _ _ (hx.of_run_ok hrun), fun hrun => herror _ _ (hx.of_run_error hrun)⟩

/-! ## Single steps -/

theorem pure {a : α} (h : ok a s) : (pure a : Stateful ε σ α).Ends s ok error :=
  (ok_iff (run_pure a s)).mpr h

theorem throw {e : ε} (h : error e s) : (throw e : Stateful ε σ α).Ends s ok error :=
  (error_iff (run_throw e s)).mpr h

theorem get {known : σ → σ → Prop} (h : known s s) : (Stateful.get : Stateful ε σ σ).Ends s known error :=
  (ok_iff (run_get s)).mpr h

/-! ## Steps one after the other -/

theorem bind (hx : x.Ends s (fun a s' => (f a).Ends s' done error) error) : (x >>= f).Ends s done error := by
  have hbind := run_bind x f s
  rcases hrun : x.run s with ⟨r, s'⟩
  rw [hrun] at hbind
  cases r with
  | ok a =>
    have hf := hx.of_run_ok hrun
    constructor
    · intro b s'' h
      exact hf.of_run_ok (hbind.symm.trans h)
    · intro e s'' h
      exact hf.of_run_error (hbind.symm.trans h)
  | error e => exact (error_iff hbind).mpr (hx.of_run_error hrun)

/-- An error that is looked at is a value. -/
theorem attempt {either : Except ε α → σ → Prop}
    (hx : x.Ends s (fun a s' => either (.ok a) s') fun e s' => either (.error e) s') :
    (attempt x).Ends s either error' := by
  have hattempt := run_attempt x s
  rcases hrun : x.run s with ⟨r, s'⟩
  rw [hrun] at hattempt
  refine (ok_iff hattempt).mpr ?_
  cases r with
  | ok a => exact hx.of_run_ok hrun
  | error e => exact hx.of_run_error hrun

/-- Every step goes on from a state that `inv` holds of and leaves one again, and `later` says how the states
follow each other.  What one step adds to what is known, the later ones keep. -/
theorem forM {step : α → Stateful ε σ Unit} (inv : σ → Prop) (later : σ → σ → Prop) (added : α → σ → Prop)
    (error : ε → Prop) (hrefl : ∀ s, later s s)
    (htrans : ∀ {s s' s''}, later s s' → later s' s'' → later s s'')
    (hkeep : ∀ {a s s'}, later s s' → added a s → added a s') {as : List α}
    (hstep : ∀ a ∈ as, ∀ s, inv s → (step a).Ends s (fun _ s' => inv s' ∧ later s s' ∧ added a s')
      fun e s' => inv s' ∧ later s s' ∧ error e) (hs : inv s) :
    (as.forM step).Ends s (fun _ s' => inv s' ∧ later s s' ∧ ∀ a ∈ as, added a s')
      fun e s' => inv s' ∧ later s s' ∧ error e := by
  induction as generalizing s with
  | nil => exact .pure ⟨hs, hrefl s, fun _ h => (nomatch h)⟩
  | cons a as ih =>
    refine .bind ((hstep a List.mem_cons_self s hs).mono ?_ fun _ _ h => h)
    rintro - s₁ ⟨hs₁, hlater, hadded⟩
    refine (ih (fun b hb => hstep b (List.mem_cons_of_mem a hb)) hs₁).mono ?_ ?_
    · rintro - s₂ ⟨hs₂, hlater', hall⟩
      refine ⟨hs₂, htrans hlater hlater', ?_⟩
      intro b hb
      rcases List.mem_cons.mp hb with rfl | hb
      · exact hkeep hlater' hadded
      · exact hall b hb
    · rintro e s₂ ⟨hs₂, hlater', he⟩
      exact ⟨hs₂, htrans hlater hlater', he⟩

end Ends

/-! ## Results -/

theorem run_map_eq_ok_iff {x : Stateful ε σ α} {f : α → β} {b : β} {s' : σ} :
    (f <$> x).run s = (.ok b, s') ↔ ∃ a, x.run s = (.ok a, s') ∧ f a = b := by
  rw [run_map]
  rcases hrun : x.run s with ⟨r, s₁⟩
  constructor
  · intro h
    obtain ⟨hr, rfl⟩ := Prod.mk.inj h
    obtain ⟨a, rfl, ha⟩ := map_eq_ok_iff.mp hr
    exact ⟨a, rfl, ha⟩
  · rintro ⟨a, h, rfl⟩
    obtain ⟨rfl, rfl⟩ := Prod.mk.inj h
    rfl

theorem run_eq_of_run_map {x y : Stateful ε σ α} {f : α → β} (hf : Function.Injective f)
    (h : (f <$> x).run s = (f <$> y).run s) : x.run s = y.run s := by
  rw [run_map, run_map] at h
  obtain ⟨hresult, hstate⟩ := Prod.mk.inj h
  exact Prod.ext (map_injective hf hresult) hstate

/-- A computation gives a value if its first step gives one and what comes then does so. -/
theorem exists_of_run_bind {x : Stateful ε σ α} {f : α → Stateful ε σ β} {b : β} {s' : σ}
    (h : (x >>= f).run s = (.ok b, s')) : ∃ a s₁, x.run s = (.ok a, s₁) ∧ (f a).run s₁ = (.ok b, s') := by
  rw [run_bind] at h
  rcases hrun : x.run s with ⟨r, s₁⟩
  rw [hrun] at h
  cases r with
  | ok a => exact ⟨a, s₁, rfl, h⟩
  | error e => cases h

/-! ## Equal computations -/

theorem run_bind_congr {x y : Stateful ε σ α} {f g : α → Stateful ε σ β} (hx : x.run s = y.run s)
    (hf : ∀ a s', x.run s = (.ok a, s') → (f a).run s' = (g a).run s') :
    (x >>= f).run s = (y >>= g).run s := by
  rw [run_bind, run_bind, ← hx]
  split
  · rename_i hrun
    exact hf _ _ hrun
  · rfl

theorem run_forM_congr {f g : α → Stateful ε σ Unit} (inv : σ → Prop) {as : List α}
    (hkeep : ∀ a ∈ as, ∀ s, inv s → inv ((f a).run s).2)
    (h : ∀ a ∈ as, ∀ s, inv s → (f a).run s = (g a).run s) (hs : inv s) :
    (as.forM f).run s = (as.forM g).run s := by
  induction as generalizing s with
  | nil => rfl
  | cons a as ih =>
    refine run_bind_congr (h a List.mem_cons_self s hs) ?_
    intro _ s' hrun
    have hs' := hkeep a List.mem_cons_self s hs
    rw [hrun] at hs'
    exact ih (fun b hb => hkeep b (List.mem_cons_of_mem a hb)) (fun b hb => h b (List.mem_cons_of_mem a hb)) hs'

end AddressedF.Stateful
