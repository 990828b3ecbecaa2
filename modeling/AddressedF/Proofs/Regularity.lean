import AddressedF.Proofs.Checked

/-!
# Regularity

Every type that is found for a term is a type of terms: it has kind `*` where the term stands.  This holds for
terms with free variables as well, as long as the types of the variables were of kind `*` where they came into
scope.

## Main Definitions

* `Context.WellFormed`: contexts in which every type had kind `*` when it was pushed
* `Context.nesting`: the largest number of quantifiers in one type of a context

## Main Results

* `Signature.Checked.regularity`: types of terms have kind `*`

## Design Notes

The kind of a type in the context is only known in front of the variables that were in scope where it was
written.  `Context.Sound` says so for every entry at once, and it bounds the quantifiers.  A well-formed
context is sound for the largest number of quantifiers in it, so nothing has to be assumed of a context but
how it was built.
-/

namespace AddressedF

namespace Context

/-- Contexts that are built by going under binders, each type having kind `*` where it is bound. -/
inductive WellFormed (sig : Signature) : Context → Prop where
  | empty : WellFormed sig .empty
  | pushKind {Γ : Context} (k : Kind) : WellFormed sig Γ → WellFormed sig (Γ.pushKind k)
  | pushType {Γ : Context} {T : Ty} :
    WellFormed sig Γ → sig.kindOf Γ.kinds T = .ok .star → WellFormed sig (Γ.pushType T)

/-- The largest number of quantifiers that stand inside each other in a type of a context. -/
def nesting (Γ : Context) : Nat :=
  Γ.types.foldr (fun b n => max b.type.nesting n) 0

theorem nesting_pushType (Γ : Context) (T : Ty) :
    (Γ.pushType T).nesting = max T.nesting Γ.nesting := rfl

theorem WellFormed.sound {sig : Signature} {Γ : Context} (h : Γ.WellFormed sig) :
    Γ.Sound sig Γ.nesting := by
  induction h with
  | empty => exact .empty
  | pushKind k _ ih => exact ih.pushKind k
  | pushType _ hkind ih =>
    rw [nesting_pushType]
    exact (ih.mono (Nat.le_max_right _ _)).pushType hkind (Nat.le_max_left _ _)

end Context

namespace Signature

variable {sig : Signature} {Γ : Context} {t : Term} {T : Ty}

/-- Over a checked signature and in a well-formed context, the type that is found for a term has kind `*`.
The variables of all types have to fit in the range of indices, or shifting would not keep them apart. -/
theorem Checked.regularity (hsig : sig.Checked) (hΓ : Γ.WellFormed sig)
    (fits : Γ.kinds.length + max sig.nesting Γ.nesting + t.nesting ≤ maxIndex)
    (h : sig.typeOf Γ t = .ok T) : sig.kindOf Γ.kinds T = .ok .star := by
  have hsound := (hsig.sound (by omega)).mono (Nat.le_max_left sig.nesting Γ.nesting)
  have hcontext := hΓ.sound.mono (Nat.le_max_right sig.nesting Γ.nesting)
  exact (kindOf_typeOf hsound hcontext fits h).1

/-- From the type of a variable to an opaque type with two parameters and back.  The variable was bound where
the constructor in its type had index zero, and it is used under one more type variable. -/
theorem regularity_opaque :
    let address : Address := ⟨.replicate 32 0⟩
    let d : TypeDef := ⟨[.star, .arrow .star .star], .app (.var 0) (.var 1)⟩
    let sig := Signature.empty.addType address d d.kind
    let Γ := ((Context.empty.pushKind (.arrow .star .star)).pushType (.app (.var 0) .byte)).pushKind .star
    let packed := Term.app (.tapp (.tapp (.pack address) .byte) (.var 1)) (.var 0)
    let t := Term.app (.tapp (.tapp (.unpack address) .byte) (.var 1)) packed
    sig.typeOf Γ packed = .ok (.app (.app (.ref address) .byte) (.var 1)) ∧
      sig.typeOf Γ t = .ok (.app (.var 1) .byte) ∧
      sig.kindOf Γ.kinds (.app (.app (.ref address) .byte) (.var 1)) = .ok .star ∧
      sig.kindOf Γ.kinds (.app (.var 1) .byte) = .ok .star := by
  intro address d sig Γ packed t
  have hsig : sig.Checked := .addType address .empty rfl
  have hΓ : Γ.WellFormed sig := .pushKind _ (.pushType (.pushKind _ .empty) rfl)
  have hpacked : sig.typeOf Γ packed = .ok (.app (.app (.ref address) .byte) (.var 1)) := by
    decide +kernel
  have ht : sig.typeOf Γ t = .ok (.app (.var 1) .byte) := by decide +kernel
  exact ⟨hpacked, ht, hsig.regularity hΓ (by decide +kernel) hpacked,
    hsig.regularity hΓ (by decide +kernel) ht⟩

end Signature

end AddressedF
