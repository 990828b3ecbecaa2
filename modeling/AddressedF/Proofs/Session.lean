import AddressedF.Proofs.Loading
import AddressedF.Proofs.Stateful

/-!
# Sessions

Operations on a library, one after the other.  An operation may fail, which keeps what it has learned and done
until then, and the next one goes on from there.

## Main Definitions

* `Library.Operation`: the operations of a library
* `Library.Operation.after`: the library that an operation leaves
* `Library.Operation.Hashes`: the encodings that an operation hashes
* `Library.Upkeep`: what the parts of operations do to a library

## Main Results

* `Library.Upkeep.after`: what the parts of operations keep is kept by all operations

## Design Notes

Most operations load, check or add a definition, whichever space it is in.  So four things have to be known of
a relation between libraries for it to hold between the libraries before and after any operation.
-/

namespace AddressedF.Library

open Stateful

variable {σ : Type} [NameStore σ]

/-- The operations of a library. -/
inductive Operation where
  | getTerm (address : Address)
  | getType (address : Address)
  | assessTerm (term : Term)
  | assessType (definition : TypeDef)
  | addTerm (term : Term)
  | addType (definition : TypeDef)
  | evaluate (term : Term) (fuel : Option Nat)
  | getTermNamed (name : String)
  | getTypeNamed (name : String)
  | addTermNamed (name : String) (term : Term) (update : Bool)
  | addTypeNamed (name : String) (definition : TypeDef) (update : Bool)
  | removeName (space : Space) (name : String)

namespace Operation

/-- The library that an operation leaves, also if it fails. -/
def after (op : Operation) (lib : Library σ) : Library σ :=
  match op with
  | getTerm a => ((Library.getTerm a).run lib).2
  | getType a => ((Library.getType a).run lib).2
  | assessTerm t => ((Library.assessTerm t).run lib).2
  | assessType d => ((Library.assessType d).run lib).2
  | addTerm t => ((Library.addTerm t).run lib).2
  | addType d => ((Library.addType d).run lib).2
  | evaluate t fuel => ((Library.evaluate t fuel).run lib).2
  | getTermNamed name => ((Library.getTermNamed name).run lib).2
  | getTypeNamed name => ((Library.getTypeNamed name).run lib).2
  | addTermNamed name t update => ((Library.addTermNamed name t update).run lib).2
  | addTypeNamed name d update => ((Library.addTypeNamed name d update).run lib).2
  | removeName space name => ((Library.removeName space name).run lib).2

/-- The definition whose address an operation determines. -/
def definition? : Operation → Option Definition
  | assessTerm t | addTerm t | addTermNamed _ t _ => some (.term t)
  | assessType d | addType d | addTypeNamed _ d _ => some (.type d)
  | _ => none

/-- The bytes of a definition are hashed after the definition has been checked.  Bytes from the store are hashed
too, but those were hashed before when they were put there. -/
def Hashes (op : Operation) (lib : Library σ) (bytes : List UInt8) : Prop :=
  ∃ d, op.definition? = some d ∧ d.encode = .ok bytes ∧ ∃ e lib', (checkDefinition d).run lib = (.ok e, lib')

end Operation

/-! ## What all operations keep -/

/-- A relation between earlier and later libraries that the parts of operations keep to.  Only certain
definitions have to be added. -/
structure Upkeep (allowed : Definition → Prop) (P : Library σ → Library σ → Prop) : Prop where
  refl : ∀ lib, P lib lib
  trans : ∀ {lib lib' lib''}, P lib lib' → P lib' lib'' → P lib lib''
  load : ∀ x lib, P lib ((loadKey x).run lib).2
  check : ∀ d lib, P lib ((checkDefinition d).run lib).2
  add : ∀ d lib, allowed d → P lib ((addDefinition d).run lib).2
  lookup : ∀ space name lib, P lib ((onStore (NameStore.lookup space name)).run lib).2
  bind : ∀ space name a update lib, P lib ((onStore (NameStore.bind space name a update)).run lib).2
  unbind : ∀ space name lib, P lib ((onStore (NameStore.unbind space name)).run lib).2

namespace Upkeep

variable {allowed : Definition → Prop} {P : Library σ → Library σ → Prop} {α β : Type}
  {x : LibraryM σ α} {lib : Library σ}

theorem state_bind (h : Upkeep allowed P) {f : α → LibraryM σ β} (hx : P lib (x.run lib).2)
    (hf : ∀ a lib', x.run lib = (.ok a, lib') → P lib' ((f a).run lib').2) :
    P lib ((x >>= f).run lib).2 := by
  rw [run_bind]
  rcases hrun : x.run lib with ⟨r, lib'⟩
  rw [hrun] at hx
  cases r with
  | ok a => exact h.trans hx (hf a lib' hrun)
  | error e => exact hx

theorem getKey (h : Upkeep allowed P) (k : Key) (lib : Library σ) : P lib ((Library.getKey k).run lib).2 := by
  refine h.state_bind (h.load k lib) ?_
  intro e? lib' _
  cases e? <;> exact h.refl lib'

theorem assess (h : Upkeep allowed P) (d : Definition) (lib : Library σ) :
    P lib ((assessDefinition d).run lib).2 := by
  refine h.state_bind (h.check d lib) ?_
  intro e lib' _
  refine h.state_bind (h.refl lib') ?_
  intro bytes lib'' _
  exact h.refl lib''

theorem checkBindable (h : Upkeep allowed P) (space : Space) (name : String) (a : Address) (update : Bool)
    (lib : Library σ) : P lib ((Library.checkBindable space name a update).run lib).2 := by
  refine h.state_bind (h.lookup space name lib) ?_
  intro existing? lib' _
  cases existing? with
  | none => exact h.refl lib'
  | some existing =>
    dsimp only
    split <;> exact h.refl lib'

theorem resolveName (h : Upkeep allowed P) (space : Space) (name : String) (lib : Library σ) :
    P lib ((Library.resolveName space name).run lib).2 := by
  refine h.state_bind (h.lookup space name lib) ?_
  intro a? lib' _
  cases a? <;> exact h.refl lib'

theorem addDefinition (h : Upkeep allowed P) {d : Definition}
    (hd : ∀ e lib', (checkDefinition d).run lib = (.ok e, lib') → allowed d) :
    P lib ((Library.addDefinition d).run lib).2 := by
  rcases hrun : (checkDefinition d).run lib with ⟨r, lib'⟩
  cases r with
  | ok e => exact h.add d lib (hd e lib' hrun)
  | error e =>
    have hcheck := h.check d lib
    rw [hrun] at hcheck
    rwa [Library.addDefinition, run_bind, hrun]

theorem getTerm (h : Upkeep allowed P) (a : Address) (lib : Library σ) :
    P lib ((Library.getTerm a).run lib).2 := by
  have hget := h.getKey (.term, a) lib
  rwa [getKey_term, run_map] at hget

theorem getType (h : Upkeep allowed P) (a : Address) (lib : Library σ) :
    P lib ((Library.getType a).run lib).2 := by
  have hget := h.getKey (.type, a) lib
  rwa [getKey_type, run_map] at hget

theorem assessTerm (h : Upkeep allowed P) (t : Term) (lib : Library σ) :
    P lib ((Library.assessTerm t).run lib).2 := by
  have hassess := h.assess (.term t) lib
  rwa [assessDefinition_term, run_map] at hassess

theorem assessType (h : Upkeep allowed P) (d : TypeDef) (lib : Library σ) :
    P lib ((Library.assessType d).run lib).2 := by
  have hassess := h.assess (.type d) lib
  rwa [assessDefinition_type, run_map] at hassess

theorem addTerm (h : Upkeep allowed P) {t : Term}
    (ht : ∀ e lib', (checkDefinition (.term t)).run lib = (.ok e, lib') → allowed (.term t)) :
    P lib ((Library.addTerm t).run lib).2 := by
  have hadd := h.addDefinition ht
  rwa [addDefinition_term, run_map] at hadd

theorem addType (h : Upkeep allowed P) {d : TypeDef}
    (hd : ∀ e lib', (checkDefinition (.type d)).run lib = (.ok e, lib') → allowed (.type d)) :
    P lib ((Library.addType d).run lib).2 := by
  have hadd := h.addDefinition hd
  rwa [addDefinition_type, run_map] at hadd

theorem evaluate (h : Upkeep allowed P) (t : Term) (fuel : Option Nat) (lib : Library σ) :
    P lib ((Library.evaluate t fuel).run lib).2 := by
  have hcheck := h.check (.term t) lib
  rw [checkDefinition_term, run_map] at hcheck
  refine h.state_bind hcheck ?_
  intro T lib' _
  refine h.state_bind (h.refl lib') ?_
  rintro _ _ ⟨⟩
  -- the machine does not touch the library, whether it comes to an end or not
  split
  · rw [run_map]
    exact h.refl lib'
  · exact h.refl lib'

theorem addTermNamed (h : Upkeep allowed P) {name : String} {t : Term} {update : Bool}
    (ht : ∀ e lib', (checkDefinition (.term t)).run lib = (.ok e, lib') → allowed (.term t)) :
    P lib ((Library.addTermNamed name t update).run lib).2 := by
  refine h.state_bind (h.assessTerm t lib) ?_
  rintro ⟨a, T⟩ lib₁ hrun
  -- what has been assessed was checked, so it may be added
  obtain ⟨_, lib', hcheck, -⟩ := exists_of_run_bind hrun
  have hallowed := ht _ lib' (checkDefinition_term (σ := σ) t ▸ run_map_eq_ok_iff.mpr ⟨_, hcheck, rfl⟩)
  refine h.state_bind (h.checkBindable .term name a update lib₁) ?_
  intro _ lib₂ _
  refine h.state_bind (h.addTerm fun _ _ _ => hallowed) ?_
  intro added lib₃ _
  refine h.state_bind (h.bind .term name added.address update lib₃) ?_
  intro _ lib₄ _
  exact h.refl lib₄

theorem addTypeNamed (h : Upkeep allowed P) {name : String} {d : TypeDef} {update : Bool}
    (hd : ∀ e lib', (checkDefinition (.type d)).run lib = (.ok e, lib') → allowed (.type d)) :
    P lib ((Library.addTypeNamed name d update).run lib).2 := by
  refine h.state_bind (h.assessType d lib) ?_
  rintro ⟨a, k⟩ lib₁ hrun
  obtain ⟨_, lib', hcheck, -⟩ := exists_of_run_bind hrun
  have hallowed := hd _ lib' (checkDefinition_type (σ := σ) d ▸ run_map_eq_ok_iff.mpr ⟨_, hcheck, rfl⟩)
  refine h.state_bind (h.checkBindable .type name a update lib₁) ?_
  intro _ lib₂ _
  refine h.state_bind (h.addType fun _ _ _ => hallowed) ?_
  intro added lib₃ _
  refine h.state_bind (h.bind .type name added.address update lib₃) ?_
  intro _ lib₄ _
  exact h.refl lib₄

/-- What the parts of operations keep, all operations keep. -/
theorem after (h : Upkeep allowed P) (op : Operation) {lib : Library σ}
    (hop : ∀ d e lib', op.definition? = some d → (checkDefinition d).run lib = (.ok e, lib') → allowed d) :
    P lib (op.after lib) := by
  cases op with
  | getTerm a => exact h.getTerm a lib
  | getType a => exact h.getType a lib
  | assessTerm t => exact h.assessTerm t lib
  | assessType d => exact h.assessType d lib
  | addTerm t => exact h.addTerm fun e lib' => hop _ e lib' rfl
  | addType d => exact h.addType fun e lib' => hop _ e lib' rfl
  | evaluate t fuel => exact h.evaluate t fuel lib
  | getTermNamed name =>
    refine h.state_bind (h.resolveName .term name lib) ?_
    intro a lib₁ _
    refine h.state_bind (h.getTerm a lib₁) ?_
    intro _ lib₂ _
    exact h.refl lib₂
  | getTypeNamed name =>
    refine h.state_bind (h.resolveName .type name lib) ?_
    intro a lib₁ _
    refine h.state_bind (h.getType a lib₁) ?_
    intro _ lib₂ _
    exact h.refl lib₂
  | addTermNamed name t update => exact h.addTermNamed fun e lib' => hop _ e lib' rfl
  | addTypeNamed name d update => exact h.addTypeNamed fun e lib' => hop _ e lib' rfl
  | removeName space name => exact h.unbind space name lib

end Upkeep

end AddressedF.Library
