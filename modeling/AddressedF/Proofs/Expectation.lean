import AddressedF.Proofs.Elaboration
import AddressedF.Proofs.Regularity

/-!
# Elaboration against a Given Type

A term may be elaborated against a type that comes from outside.  Functions take their parameter types from it,
and nobody looks at its kind.  So the core term is one of that type exactly if the type is a type of terms at all.

## Main Results

* `Signature.Checked.elaborate_against_iff`: when a term that was elaborated against a type has the type
* `Signature.elaborate_against_constructor`: a term that was elaborated against a type and has none

## Design Notes

An annotation is elaborated at kind `*` before the annotated term is, and so is the type of a parameter that is
written down.  Only a type that is given from outside enters without a kind.
-/

namespace AddressedF.Signature

variable {sig : Signature} {s : Surface.Term} {c : Term} {E T : Ty}

/-- Over a checked signature, what comes out of elaboration against a type has that type exactly if the type has
kind `*`. -/
theorem Checked.elaborate_against_iff (hsig : sig.Checked)
    (fits : max sig.nesting E.nesting + s.nesting ≤ maxIndex) (fits' : sig.nesting + c.nesting ≤ maxIndex)
    (h : sig.elaborate .empty (some E) s = .ok (c, T)) :
    sig.typeOf .empty c = .ok E ↔ sig.kindOf [] E = .ok .star := by
  have hsound := hsig.sound (by omega)
  constructor
  · intro hc
    exact (kindOf_typeOf_empty hsound hc fits').1
  · intro hE
    have hsound' := hsound.mono (Nat.le_max_left sig.nesting E.nesting)
    have hexpected : sig.Expects Scope.empty.context (max sig.nesting E.nesting) (some E) :=
      .some hE (Nat.le_max_right _ _)
    have hfits : Scope.empty.context.kinds.length + max sig.nesting E.nesting + s.nesting ≤ maxIndex := by
      simpa [Scope.context, Scope.empty] using fits
    have hc := elaborate_sound hsound' .empty hexpected hfits h
    rw [← hc.eq_expected E rfl]
    exact hc.typeOf

/-- A function of a type constructor, of a value at that constructor and of a number takes the types of both from
the given type. -/
theorem elaborate_against_iff_unannotated :
    let address : Address := ⟨.replicate 32 0⟩
    let sig := Numeral.signature address 2
    let E := Ty.all (.arrow .star .star)
      (.arrow (.app (.var 0) .byte) (.arrow (.ref address) (.app (.var 0) .byte)))
    let s := Surface.Term.tlam "f" (.arrow .star .star) (.lam "x" none (.lam "n" none (.var "x")))
    let c := Term.tlam (.arrow .star .star) (.lam (.app (.var 0) .byte) (.lam (.ref address) (.var 1)))
    (sig.elaborate .empty (some E) s = .ok (c, E) ∧ sig.kindOf [] E = .ok .star) ∧
      sig.typeOf .empty c = .ok E := by
  intro address sig E s c
  have hsig : sig.Checked := Numeral.checked_signature address 2
  have h : sig.elaborate .empty (some E) s = .ok (c, E) := by decide +kernel
  have hE : sig.kindOf [] E = .ok .star := by decide +kernel
  exact ⟨⟨h, hE⟩, (hsig.elaborate_against_iff (by decide +kernel) (by decide +kernel) h).mpr hE⟩

/-- The type of functions from the arrow itself to the arrow itself is closed, but of no kind.  The identity is
elaborated against it, and the core calculus refuses the parameter type that was taken from it. -/
theorem elaborate_against_constructor :
    let E := Ty.arrow (.con .arrow) (.con .arrow)
    let c := Term.lam (.con .arrow) (.var 0)
    Signature.empty.Checked ∧
      Signature.empty.elaborate .empty (some E) (.lam "x" none (.var "x")) = .ok (c, E) ∧
      Signature.empty.typeOf .empty c = .error (.kindMismatch (.con .arrow) .star TyCon.arrow.kind) :=
  ⟨.empty, by decide +kernel, by decide +kernel⟩

end AddressedF.Signature
