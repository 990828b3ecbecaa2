import AddressedF.Proofs.Kinding

/-!
# Kinds in a Larger Context

Entries may be put into a context at any depth.  A type that is shifted past them has the kinds in the larger
context that the type itself has in the smaller one, and no others: shifting breaks no type and mends none.

## Main Results

* `getElem?_shiftIndex`: a shifted variable finds the entry that the variable itself finds without the
  new entries
* `Signature.kindOf_shift_iff`: the kinds of a shifted type

## Design Notes

`Ty.shift` is not a renaming here, because the type is arbitrary: a variable that nothing binds may have an
index so large that the shift stops at the end of the range.  It then is the largest index of all, which no
context has an entry for, as long as the length of every context is an index too.  Contexts grow under
quantifiers, so this is asked of the larger context together with the quantifiers of the type.
-/

namespace AddressedF

section

variable {α : Type*} {inner : List α} {i : Nat}

/-- Variables inside of the new entries do not notice them. -/
theorem getElem?_append_append_left (added outer : List α) (h : i < inner.length) :
    (inner ++ added ++ outer)[i]? = (inner ++ outer)[i]? := by
  rw [List.append_assoc, List.getElem?_append_left h, List.getElem?_append_left h]

/-- Variables outside of the new entries are moved past them, also those that nothing binds. -/
theorem getElem?_shiftIndex (added outer : List α) (h : inner.length ≤ i)
    (fits : (inner ++ added ++ outer).length ≤ maxIndex) :
    (inner ++ added ++ outer)[shiftIndex added.length i]? = (inner ++ outer)[i]? := by
  by_cases hrange : i + added.length ≤ maxIndex
  · have hinner : inner.length ≤ i + added.length := Nat.le_add_right_of_le h
    have hadded : added.length ≤ i + added.length - inner.length := by omega
    have hrest : i + added.length - inner.length - added.length = i - inner.length := by omega
    rw [shiftIndex_of_le hrange, List.append_assoc, List.getElem?_append_right hinner,
      List.getElem?_append_right hadded, hrest, List.getElem?_append_right h]
  · -- the shift stops, and neither variable is bound
    have hstop : shiftIndex added.length i = maxIndex := by
      unfold shiftIndex
      omega
    have hi : (inner ++ outer).length ≤ i := by
      simp only [List.length_append] at fits ⊢
      omega
    rw [hstop, List.getElem?_eq_none fits, List.getElem?_eq_none hi]

end

namespace Signature

/-- A type that is shifted past the entries `added` has the kinds that it has without them, and no others.
The hypothesis says that wherever a variable stands in the shifted type the number of entries is an index. -/
theorem kindOf_shift_iff (sig : Signature) (inner added outer : List Kind) (t : Ty) (k : Kind)
    (fits : inner.length + added.length + outer.length + t.nesting ≤ maxIndex) :
    sig.kindOf (inner ++ added ++ outer) (t.shift added.length inner.length) = .ok k ↔
      sig.kindOf (inner ++ outer) t = .ok k := by
  induction t generalizing inner k with
  | con c => rw [Ty.shift, kindOf_con, kindOf_con]
  | ref address => rw [Ty.shift, kindOf_ref_iff, kindOf_ref_iff]
  | var i =>
    rw [Ty.shift]
    split
    · rename_i hi
      have hlength : (inner ++ added ++ outer).length ≤ maxIndex := by
        simpa [Ty.nesting, Nat.add_assoc] using fits
      rw [kindOf_var_iff, kindOf_var_iff, getElem?_shiftIndex added outer hi hlength]
    · rename_i hi
      rw [kindOf_var_iff, kindOf_var_iff, getElem?_append_append_left added outer (by omega)]
  | app f a ihf iha =>
    simp only [Ty.nesting] at fits
    have ihf := fun k => ihf inner k (by omega)
    have iha := fun k => iha inner k (by omega)
    simp only [Ty.shift, kindOf_app_iff, ihf, iha]
  | all k₀ body ih =>
    simp only [Ty.nesting] at fits
    -- the quantified variable is one more entry inside of the new ones
    have ih := ih (k₀ :: inner) .star (by rw [List.length_cons]; omega)
    rw [List.length_cons, List.cons_append, List.cons_append, List.cons_append] at ih
    rw [Ty.shift, kindOf_all_iff, kindOf_all_iff, ih]

/-- Two entries between the variable that is applied and the one that it is applied to, and a quantifier. -/
theorem kindOf_shift_iff_under_quantifier :
    let inner : List Kind := [.arrow .star .star]
    let added : List Kind := [.arrow .star .star, .star]
    let outer : List Kind := [.star]
    let t := Ty.all .star (.arrow (.app (.var 1) (.var 0)) (.app (.var 1) (.var 2)))
    let image := Ty.all .star (.arrow (.app (.var 1) (.var 0)) (.app (.var 1) (.var 4)))
    inner.length + added.length + outer.length + t.nesting ≤ maxIndex ∧
    t.shift added.length inner.length = image ∧
    Signature.empty.kindOf [.arrow .star .star, .arrow .star .star, .star, .star] image = .ok .star := by
  intro inner added outer t image
  have fits : inner.length + added.length + outer.length + t.nesting ≤ maxIndex := by decide
  have himage : t.shift added.length inner.length = image := by decide
  refine ⟨fits, himage, ?_⟩
  rw [← himage]
  exact (kindOf_shift_iff Signature.empty inner added outer t .star fits).mpr rfl

end Signature

end AddressedF
