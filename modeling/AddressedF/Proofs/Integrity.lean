import AddressedF.Proofs.Numerals
import AddressedF.Proofs.Regime
import AddressedF.Proofs.Session
import AddressedF.Storage.Memory

/-!
# Integrity of Libraries

Whatever the bytes in the store are, and even if they change from one operation to the next, a library knows
only what it has checked.

## Main Definitions

* `Library.Session`: libraries that were opened empty and changed by operations, over a store that anyone may
  change

## Main Results

* `Library.Session.checked`: the signature of a session is a checked one
* `Library.Session.integrity`: the signature is intact after any operation, and keeps what it had

## Design Notes

Entries are recorded from two sides.  A definition that is added gets the digest of its encoding as address.
Of one that is loaded, the bytes are checked against the address and then read, and they are the encoding of
what is read because no definition has two encodings.
-/

namespace AddressedF.Library

open Stateful

variable {σ : Type}

/-- Loading from any store. -/
def recording (σ : Type) [BlobStore σ] : Regime σ where
  inv lib := lib.signature.Intact ∧ lib.signature.Checked
  allowed _ _ := True
  missing _ := True
  found x d := d.space = x.1 ∧ ∃ bytes, d.encode = .ok bytes ∧ Address.ofContent bytes = x.2
  fails _ := True
  space_eq h := h.1
  fetch {n x lib} hlib _ _ := by
    refine ends_fetchDefinition ?_ ?_ ?_ ?_ ?_
    · intro store _
      exact ⟨hlib, rfl, trivial⟩
    · intro bytes store d _ haddress hd
      obtain ⟨hspace, hencode⟩ := Definition.decode_eq_ok_iff.mp hd
      exact ⟨hlib, rfl, hspace, bytes, hencode, haddress⟩
    all_goals
      intros
      exact ⟨hlib, rfl, trivial⟩
  allowed_mentions _ _ _ _ := trivial
  fails_circular _ _ := trivial
  fails_undefined _ _ := trivial
  fails_check _ _ _ _ _ := trivial
  inv_record hlib _ hd he := by
    obtain ⟨-, bytes, hencode, haddress⟩ := hd
    exact ⟨hlib.1.record hencode haddress he, hlib.2.record _ he⟩

section Operations

variable [NameStore σ] {lib : Library σ}

/-- Operations keep an intact and checked signature so, and keep its entries. -/
theorem upkeep_recording : Upkeep (fun _ => True) fun lib lib' : Library σ =>
    (recording σ).inv lib → (recording σ).After lib lib' where
  refl lib hlib := .refl hlib
  trans h h' hlib := (h hlib).trans (h' (h hlib).inv)
  load x lib hlib := by
    have hload := Regime.loads_loadKey (R := recording σ) (x := x) (fun _ _ => trivial) lib hlib
    exact Ends.state (hload.mono (fun _ _ h => h.1) fun _ _ h => h.1)
  check d lib hlib := by
    have hcheck := Regime.ends_checkDefinition (R := recording σ) (d := d) (fun _ _ _ _ => trivial) hlib
    exact Ends.state (hcheck.mono (fun _ _ h => h.1) fun _ _ h => h.1)
  add d lib _ hlib := by
    have hcheck := Regime.ends_checkDefinition (R := recording σ) (d := d) (fun _ _ _ _ => trivial) hlib
    refine Ends.state (.bind (hcheck.mono ?_ fun _ _ h => h.1))
    rintro e lib' ⟨hafter, he⟩
    refine .bind (ends_liftError ?_ fun _ _ => hafter)
    intro bytes hbytes
    have hinv : (lib'.signature.record (.ofContent bytes) e).Intact ∧
        (lib'.signature.record (.ofContent bytes) e).Checked :=
      ⟨hafter.inv.1.record hbytes rfl he, hafter.inv.2.record _ he⟩
    refine .bind (ends_record (.bind (ends_onStore ?_ ?_)))
    · intro written store _
      exact .pure (hafter.trans ⟨hinv, .record ..⟩)
    · intro err store _
      exact hafter.trans ⟨hinv, .record ..⟩
  lookup _ _ _ hlib := ⟨hlib, .refl _⟩
  bind _ _ _ _ _ hlib := ⟨hlib, .refl _⟩
  unbind _ _ _ hlib := ⟨hlib, .refl _⟩

/-- A library that was opened with nothing known and then changed by operations.  In between, the store may be
changed in any way, and references may be gone through in another order. -/
inductive Session : Library σ → Prop where
  | new (store : σ) : Session (.new store)
  | operation {lib : Library σ} (op : Operation) : Session lib → Session (op.after lib)
  | outside {lib : Library σ} (store : σ) (schedule : Schedule) :
    Session lib → Session ⟨store, lib.signature, schedule⟩

theorem Session.inv_recording (h : lib.Session) : (recording σ).inv lib := by
  induction h with
  | new => exact ⟨.empty, .empty⟩
  | operation op _ ih => exact (upkeep_recording.after op (fun _ _ _ _ _ => trivial) ih).inv
  | outside _ _ _ ih => exact ih

theorem Session.intact (h : lib.Session) : lib.signature.Intact := h.inv_recording.1

/-- What a library knows was checked in the order in which it was recorded, so evaluation on it is safe. -/
theorem Session.checked (h : lib.Session) : lib.signature.Checked := h.inv_recording.2

/-- After any operation, each entry of the signature has the digest of its encoding as address, has the kind or
the type that the signature gives it, and mentions only what has an entry; and what was there is still there. -/
theorem Session.integrity (h : lib.Session) (op : Operation) :
    (op.after lib).signature.Intact ∧ lib.signature.Sub (op.after lib).signature := by
  have hafter := upkeep_recording.after op (fun _ _ _ _ _ => trivial) h.inv_recording
  exact ⟨hafter.inv.1, hafter.sub⟩

end Operations

/-- A number is added after the store has lost the definition of numbers. -/
theorem integrity_numeral :
    let added := (Operation.addType Numeral.definition).after (.new MemoryStore.empty)
    let lib : Library MemoryStore := ⟨.empty, added.signature, .inOrder⟩
    let op := Operation.addTerm (Numeral.ofNat (.ofContent Numeral.bytes) 2)
    lib.Session ∧ (op.after lib).signature.types.size = 1 ∧ (op.after lib).signature.terms.size = 1 ∧
      (op.after lib).signature.Intact ∧ lib.signature.Sub (op.after lib).signature := by
  intro added lib op
  have hlib : lib.Session := .outside _ .inOrder (.operation (.addType Numeral.definition) (.new _))
  have hsizes : (op.after lib).signature.types.size = 1 ∧ (op.after lib).signature.terms.size = 1 := by
    decide +kernel
  exact ⟨hlib, hsizes.1, hsizes.2, hlib.integrity op⟩

end AddressedF.Library
