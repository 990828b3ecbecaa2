import AddressedF.Proofs.Elaboration

/-!
# Elaboration by Itself and against a Type

A term that has a type by itself can be elaborated against that type and against no other, with the same core term.
Against that type, the functions that it begins with may leave out the types of their parameters, from the first one
on: they are found in the type.

## Main Definitions

* `Surface.Term.looksAtExpected`: whether the expected type goes into a term
* `Surface.Term.dropDomains`: a term without the parameter types of its first functions

## Main Results

* `Signature.elaborate_eq_settle`: a term into which the expected type does not go is elaborated by itself first
* `Signature.elaborate_eq_ok_iff`: a term with a type of its own, where a type may be expected
* `Signature.modes_cohere`: elaboration against a type, with parameter types and without

## Design Notes

The expected type goes into functions without a parameter type and into type abstractions.  The first have no type
of their own, so it is only for type abstractions that the two ways of elaborating a term differ, and there the
body of the expected type is compared in place of the whole.

Nothing is assumed of the signature or of the scope.
-/

namespace AddressedF

namespace Surface.Term

/-- Whether the expected type goes into a term. -/
def looksAtExpected : Term → Bool
  | lam _ none _ | tlam _ _ _ => true
  | _ => false

/-- Leaves out the types of so many parameters, those of the first functions among the functions and type
abstractions that a term begins with. -/
def dropDomains : Term → Nat → Term
  | lam name _ body, count + 1 => lam name none (body.dropDomains count)
  | tlam name k body, count => tlam name k (body.dropDomains count)
  | t, _ => t

end Surface.Term

namespace Signature

variable {sig : Signature} {scope : Scope} {s : Surface.Term} {c : Term} {T : Ty} {expected : Option Ty}

/-- A term into which the expected type does not go is elaborated by itself, and then its type is compared. -/
theorem elaborate_eq_settle (h : s.looksAtExpected = false) (expected : Option Ty) :
    sig.elaborate scope expected s =
      sig.elaborate scope none s >>= fun p => settle expected p.1 p.2 := by
  cases s with
  | ref address =>
    rw [elaborate, elaborate]
    cases sig.typeAt? address <;> rfl
  | var name =>
    rw [elaborate, elaborate]
    cases scope.lookupType? name <;> rfl
  | app f a =>
    rw [elaborate, elaborate, bind_assoc]
    congr 1
    funext p
    obtain ⟨f', F⟩ := p
    dsimp only
    cases F.asArrow? with
    | some p => rw [bind_assoc]; rfl
    | none =>
      dsimp only
      cases sig.elaborate scope none a <;> rfl
  | lam name domain body =>
    cases domain with
    | none => cases h
    | some t =>
      rw [elaborate, elaborate]
      simp only [bind_assoc]
      rfl
  | tapp f t =>
    rw [elaborate, elaborate, bind_assoc]
    congr 1
    funext p
    obtain ⟨f', F⟩ := p
    dsimp only
    cases F with
    | all k body => dsimp only; rw [bind_assoc]; rfl
    | _ =>
      dsimp only
      cases sig.elaborateTy scope t <;> rfl
  | tlam name k body => cases h
  | pack address =>
    rw [elaborate, elaborate, bind_assoc]
    rfl
  | unpack address =>
    rw [elaborate, elaborate, bind_assoc]
    rfl
  | ann t type =>
    rw [elaborate, elaborate]
    simp only [bind_assoc]
    rfl

/-- A term that has a type by itself has it where any type may be expected, if that is the type. -/
theorem elaborate_eq_ok_iff (h : sig.elaborate scope none s = .ok (c, T)) {c' : Term} {T' : Ty} :
    sig.elaborate scope expected s = .ok (c', T') ↔ c = c' ∧ T = T' ∧ ∀ E ∈ expected, T = E := by
  induction s generalizing scope expected c T c' T' with
  | lam name domain body =>
    cases domain with
    | none =>
      obtain ⟨D, A, _, hnone, -⟩ := of_elaborate_lam_none h
      cases hnone
    | some t =>
      rw [elaborate_eq_settle rfl, h]
      exact settle_eq_ok_iff
  | tlam name k body ih =>
    obtain ⟨b, A, hbody, hsettle⟩ := of_elaborate_tlam h
    obtain ⟨rfl, rfl, -⟩ := settle_eq_ok_iff.mp hsettle
    constructor
    · intro h'
      obtain ⟨b', A', hbody', hsettle'⟩ := of_elaborate_tlam h'
      obtain ⟨rfl, rfl, -⟩ := (ih hbody).mp hbody'
      exact settle_eq_ok_iff.mp hsettle'
    · rintro ⟨rfl, rfl, hexpected⟩
      -- where a quantified type is expected, its body is expected of the body
      have hbody' : sig.elaborate (scope.pushKind name k) (expectedBody? k expected) body = .ok (b, A) := by
        refine (ih hbody).mpr ⟨rfl, rfl, ?_⟩
        intro E hE
        exact (Ty.all.inj (hexpected _ (expectedBody?_eq_some hE))).2
      rw [elaborate, hbody']
      exact settle_eq_ok_iff.mpr ⟨rfl, rfl, hexpected⟩
  | _ =>
    rw [elaborate_eq_settle rfl, h]
    exact settle_eq_ok_iff

theorem elaborate_self (h : sig.elaborate scope none s = .ok (c, T)) :
    sig.elaborate scope (some T) s = .ok (c, T) :=
  (elaborate_eq_ok_iff h).mpr ⟨rfl, rfl, fun _ hE => Option.some.inj hE⟩

/-- Against the type that a term has by itself, its first functions may leave out the types of their
parameters. -/
theorem elaborate_dropDomains (h : sig.elaborate scope none s = .ok (c, T)) (count : Nat) :
    sig.elaborate scope (some T) (s.dropDomains count) = .ok (c, T) := by
  induction s generalizing scope c T count with
  | lam name domain body ih =>
    cases count with
    | zero => exact elaborate_self h
    | succ count =>
      cases domain with
      | none =>
        obtain ⟨D, A, _, hnone, -⟩ := of_elaborate_lam_none h
        cases hnone
      | some t =>
        obtain ⟨D, b, A, -, hbody, hsettle⟩ := of_elaborate_lam_some h
        obtain ⟨rfl, rfl, -⟩ := settle_eq_ok_iff.mp hsettle
        -- the type of the parameter is taken from the type of the function
        rw [Surface.Term.dropDomains, elaborate.eq_def]
        dsimp only
        rw [Ty.asArrow?_arrow]
        dsimp only
        rw [ih hbody count]
        rfl
  | tlam name k body ih =>
    obtain ⟨b, A, hbody, hsettle⟩ := of_elaborate_tlam h
    obtain ⟨rfl, rfl, -⟩ := settle_eq_ok_iff.mp hsettle
    have hexpected : expectedBody? k (some (.all k A)) = some A := if_pos rfl
    rw [Surface.Term.dropDomains, elaborate, hexpected, ih hbody count]
    exact settle_eq_ok_iff.mpr ⟨rfl, rfl, fun _ hE => Option.some.inj hE⟩
  | _ => exact elaborate_self h

/-- A term that has a core term and a type by itself can be elaborated against that type and against no other one,
and it has the same core term then.  It has it too if the functions that it begins with leave out the types of
their parameters, any number of them from the first one on. -/
theorem modes_cohere (h : sig.elaborate scope none s = .ok (c, T)) :
    (∀ E r, sig.elaborate scope (some E) s = .ok r ↔ E = T ∧ r = (c, T)) ∧
    ∀ count, sig.elaborate scope (some T) (s.dropDomains count) = .ok (c, T) := by
  refine ⟨?_, elaborate_dropDomains h⟩
  rintro E ⟨c', T'⟩
  rw [elaborate_eq_ok_iff h, Prod.mk.injEq]
  constructor
  · rintro ⟨rfl, rfl, hE⟩
    exact ⟨(hE E rfl).symm, rfl, rfl⟩
  · rintro ⟨rfl, rfl, rfl⟩
    exact ⟨rfl, rfl, fun _ hE => Option.some.inj hE⟩

/-- Two functions leave out the types of their parameters, with a type abstraction between them.  The third one keeps
its own, and its parameter has the name of a type variable. -/
theorem modes_cohere_unannotated :
    let scope := Scope.empty
    let last := Surface.Term.lam "a" (some (.var "a")) (.var "x")
    let s := Surface.Term.tlam "a" .star (.lam "x" (some (.var "a")) (.tlam "f" (.arrow .star .star)
      (.lam "y" (some (.app (.var "f") (.var "a"))) last)))
    let s' := Surface.Term.tlam "a" .star (.lam "x" none (.tlam "f" (.arrow .star .star) (.lam "y" none last)))
    let c := Term.tlam .star (.lam (.var 0) (.tlam (.arrow .star .star)
      (.lam (.app (.var 0) (.var 1)) (.lam (.var 1) (.var 2)))))
    let T := Ty.all .star (.arrow (.var 0) (.all (.arrow .star .star)
      (.arrow (.app (.var 0) (.var 1)) (.arrow (.var 1) (.var 1)))))
    Signature.empty.elaborate scope none s = .ok (c, T) ∧
    Signature.empty.elaborate scope (some T) s = .ok (c, T) ∧
    (∀ r, Signature.empty.elaborate scope (some (.all .star .byte)) s ≠ .ok r) ∧
    Signature.empty.elaborate scope (some T) s' = .ok (c, T) := by
  intro scope last s s' c T
  have h : Signature.empty.elaborate scope none s = .ok (c, T) := by decide +kernel
  obtain ⟨hcheck, hdrop⟩ := modes_cohere h
  refine ⟨h, (hcheck T (c, T)).mpr ⟨rfl, rfl⟩, ?_, hdrop 2⟩
  intro r hr
  have hne := ((hcheck _ r).mp hr).1
  exact absurd hne (by decide)

end Signature

end AddressedF
