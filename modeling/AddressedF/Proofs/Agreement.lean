import AddressedF.Proofs.Elaboration
import AddressedF.Proofs.Nameless

/-!
# Elaboration and Typing Agree

A term whose parameters all have types, and nothing else has, is elaborated exactly if the core calculus accepts
the core term that it denotes, and it is elaborated to that term.  If the core calculus finds a rule broken,
then elaboration finds the same rule broken.

## Main Definitions

* `TypeError.Rule`, `TypeError.rule`: the rule that is broken, without the place where it is
* `Agrees`: what an elaboration and a computation of the core calculus have in common
* `Signature.typeOfAs`: the type of a core term where one may be expected

## Main Results

* `Signature.agrees_elaborateTy`: elaborating a type and looking for the kind of what it denotes
* `Signature.agrees_elaborate`: elaborating a term and looking for the type of what it denotes
* `Signature.elaboration_agrees`: the same, case by case

## Design Notes

The two may find a rule broken at different places.  Where a polymorphic term is expected to have a quantified
type, elaboration compares the type of its body with the body of the expected type, and the core calculus
compares the two quantified types.  Where something that cannot be applied is, elaboration reports the whole
application only if it can elaborate the argument.  So the errors that are found are compared by their rule.

Nothing is assumed of the signature or of the scope.
-/

namespace AddressedF

/-! ## Broken rules -/

/-- The rules of the core calculus. -/
inductive TypeError.Rule where
  | kindMismatch
  | typeMismatch
  | unboundVar
  | unboundTypeVar
  | undefinedTerm
  | undefinedType
  | notConstructor
  | notFunction
  | notPolymorphic
  deriving DecidableEq

/-- The rule that is broken. -/
def TypeError.rule : TypeError → Rule
  | kindMismatch _ _ _ => .kindMismatch
  | typeMismatch _ _ _ => .typeMismatch
  | unboundVar _ => .unboundVar
  | unboundTypeVar _ => .unboundTypeVar
  | undefinedTerm _ => .undefinedTerm
  | undefinedType _ => .undefinedType
  | notConstructor _ _ => .notConstructor
  | notFunction _ _ => .notFunction
  | notPolymorphic _ _ => .notPolymorphic

/-- An elaboration returns what is made of the result of the core calculus, or both find the same rule
broken. -/
inductive Agrees {α β : Type} (make : β → α) : Except ElaborationError α → Except TypeError β → Prop where
  | ok (b : β) : Agrees make (.ok (make b)) (.ok b)
  | error {e e' : TypeError} : e.rule = e'.rule → Agrees make (.error (.core e)) (.error e')

namespace Agrees

variable {α α' β β' : Type} {make : β → α} {make' : β' → α'} {x : Except ElaborationError α}
  {y : Except TypeError β}

/-- A check of the core calculus, as a step of elaboration. -/
theorem liftCore (y : Except TypeError β) : Agrees id (AddressedF.liftCore y) y := by
  cases y with
  | ok b => exact .ok b
  | error e => exact .error rfl

theorem bind (h : Agrees make x y) {f : α → Except ElaborationError α'} {g : β → Except TypeError β'}
    (hf : ∀ b, Agrees make' (f (make b)) (g b)) : Agrees make' (x >>= f) (y >>= g) := by
  cases h with
  | ok b => exact hf b
  | error he => exact .error he

theorem eq_ok_iff (h : Agrees make x y) {a : α} : x = .ok a ↔ ∃ b, y = .ok b ∧ make b = a := by
  cases h with
  | ok b => simp
  | error => simp

theorem exists_of_error (h : Agrees make x y) {e : TypeError} (he : y = .error e) :
    ∃ e', x = .error (.core e') ∧ e'.rule = e.rule := by
  cases h with
  | ok => cases he
  | error hrule =>
    cases he
    exact ⟨_, rfl, hrule⟩

end Agrees

namespace Signature

variable {sig : Signature} {scope : Scope}

/-! ## Types -/

/-- The kind that is found with a core type is the one of that type. -/
theorem agrees_elaborateTy {s : Surface.Ty} {c : Ty} (hc : s.nameless? (scope.kinds.map Prod.fst) = some c) :
    Agrees (fun k => (c, k)) (sig.elaborateTy scope s) (sig.kindOf scope.context.kinds c) := by
  induction s generalizing scope c with
  | con =>
    cases hc
    exact .ok _
  | ref address =>
    cases hc
    rw [elaborateTy, kindOf]
    cases sig.kindAt? address with
    | some k => exact .ok k
    | none => exact .error rfl
  | var name =>
    obtain ⟨i, hi, rfl⟩ := Surface.Ty.nameless?_var_iff.mp hc
    obtain ⟨k, hk⟩ := lookupIndexed?_of_idxOf? hi
    have hlookup : scope.lookupKind? name = some (i, k) := hk
    rw [elaborateTy, hlookup, kindOf, Scope.getElem?_context_kinds hlookup]
    exact .ok k
  | app f a ihf iha =>
    obtain ⟨f', a', hf, ha, rfl⟩ := Surface.Ty.nameless?_app_iff.mp hc
    rw [elaborateTy, kindOf]
    refine (ihf hf).bind fun k => ?_
    cases k with
    | arrow domain codomain =>
      refine (iha ha).bind fun found => ?_
      exact (Agrees.liftCore _).bind fun _ => .ok codomain
    | star =>
      -- whatever becomes of the argument, it is the function that is reported
      dsimp only
      cases sig.elaborateTy scope a with
      | ok p => exact .error rfl
      | error e => exact .error rfl
  | all name k body ih =>
    obtain ⟨body', hbody, rfl⟩ := Surface.Ty.nameless?_all_iff.mp hc
    have ih' : Agrees (fun k => (body', k)) (sig.elaborateTy (scope.pushKind name k) body)
        (sig.kindOf (k :: scope.context.kinds) body') := ih hbody
    rw [elaborateTy, kindOf]
    refine ih'.bind fun found => ?_
    exact (Agrees.liftCore _).bind fun _ => .ok Kind.star

theorem agrees_elaborateTyAt {s : Surface.Ty} {c : Ty}
    (hc : s.nameless? (scope.kinds.map Prod.fst) = some c) (k : Kind) :
    Agrees (fun _ => c) (sig.elaborateTyAt scope s k) (sig.checkKind scope.context.kinds c k) := by
  have hbind : sig.checkKind scope.context.kinds c k =
      sig.kindOf scope.context.kinds c >>= fun found => expectKind c k found >>= pure := by
    simp [checkKind]
  rw [hbind]
  refine (agrees_elaborateTy hc).bind fun found => ?_
  exact (Agrees.liftCore _).bind fun _ => .ok ()

end Signature

/-! ## Expected types -/

/-- Accepts the type that was found for a term, if it is the expected one. -/
def acceptType (expected : Option Ty) (t : Term) (found : Ty) : Except TypeError Ty :=
  match expected with
  | none => .ok found
  | some e => do
    expectType t e found
    return found

/-- The type of a term, which is the expected one if there is one. -/
def Signature.typeOfAs (sig : Signature) (Γ : Context) (expected : Option Ty) (t : Term) :
    Except TypeError Ty := do
  acceptType expected t (← sig.typeOf Γ t)

section

variable {expected : Option Ty} {t : Term} {found E : Ty}

theorem acceptType_of_forall (h : ∀ E ∈ expected, found = E) : acceptType expected t found = .ok found := by
  cases expected with
  | none => rfl
  | some E => rw [acceptType, expectType, if_pos (h E rfl)]; rfl

theorem acceptType_of_ne (h : found ≠ E) :
    acceptType (some E) t found = .error (.typeMismatch t E found) := by
  rw [acceptType, expectType, if_neg h]
  rfl

theorem agrees_settle (expected : Option Ty) (t : Term) (found : Ty) :
    Agrees (fun T => (t, T)) (settle expected t found) (acceptType expected t found) := by
  cases expected with
  | none => exact .ok found
  | some e => exact (Agrees.liftCore _).bind fun _ => .ok found

end

namespace Signature

variable {sig : Signature} {scope : Scope} {Γ : Context} {expected : Option Ty} {c f a : Term} {A : Ty}
  {k : Kind}

/-! ## The type of a term, from the types of its parts -/

theorem typeOfAs_none : sig.typeOfAs Γ none c = sig.typeOf Γ c :=
  bind_pure _

theorem typeOfAs_lam :
    sig.typeOfAs Γ expected (.lam A c) =
      sig.checkKind Γ.kinds A .star >>= fun _ =>
        sig.typeOfAs (Γ.pushType A) none c >>= fun B => acceptType expected (.lam A c) (.arrow A B) := by
  rw [typeOfAs_none]
  simp only [typeOfAs, typeOf, bind_assoc, pure_bind]

theorem typeOfAs_tlam :
    sig.typeOfAs Γ expected (.tlam k c) =
      sig.typeOf (Γ.pushKind k) c >>= fun B => acceptType expected (.tlam k c) (.all k B) := by
  simp only [typeOfAs, typeOf, bind_assoc, pure_bind]

theorem typeOfAs_app :
    sig.typeOfAs Γ expected (.app f a) =
      sig.typeOfAs Γ none f >>= fun F =>
        match F.asArrow? with
        | some (domain, codomain) =>
          sig.typeOfAs Γ (some domain) a >>= fun _ => acceptType expected (.app f a) codomain
        | none => .error (.notFunction (.app f a) F) := by
  rw [typeOfAs_none, typeOfAs, typeOf, bind_assoc]
  congr 1
  funext F
  cases F.asArrow? with
  | some p => simp only [typeOfAs, acceptType, bind_assoc, pure_bind]
  | none => rfl

theorem typeOfAs_tapp :
    sig.typeOfAs Γ expected (.tapp f A) =
      sig.typeOfAs Γ none f >>= fun F =>
        match F with
        | .all k body =>
          sig.checkKind Γ.kinds A k >>= fun _ => acceptType expected (.tapp f A) (body.instantiate A)
        | F => .error (.notPolymorphic (.tapp f A) F) := by
  rw [typeOfAs_none, typeOfAs, typeOf, bind_assoc]
  congr 1
  funext F
  cases F with
  | all k body => simp only [bind_assoc, pure_bind]
  | _ => rfl

/-- The body of a polymorphic term may be compared with the body of the expected type instead. -/
theorem agrees_tlam {x : Except ElaborationError (Term × Ty)}
    (h : Agrees (fun T => (c, T)) x (sig.typeOfAs (Γ.pushKind k) (expectedBody? k expected) c)) :
    Agrees (fun T => (.tlam k c, T)) (x >>= fun p => settle expected (.tlam k p.1) (.all k p.2))
      (sig.typeOfAs Γ expected (.tlam k c)) := by
  rw [typeOfAs_tlam]
  rw [typeOfAs] at h
  cases hB : sig.typeOf (Γ.pushKind k) c with
  | error e =>
    rw [hB] at h
    obtain ⟨e', rfl, hrule⟩ := h.exists_of_error rfl
    exact .error hrule
  | ok B =>
    rw [hB] at h
    change Agrees _ x (acceptType _ c B) at h
    change Agrees _ _ (acceptType expected (.tlam k c) (.all k B))
    by_cases hfits : ∀ E ∈ expectedBody? k expected, B = E
    · rw [acceptType_of_forall hfits] at h
      rw [h.eq_ok_iff.mpr ⟨B, rfl, rfl⟩]
      exact agrees_settle expected _ _
    · -- a difference of the bodies is one of the quantified types
      push Not at hfits
      obtain ⟨E, hE, hne⟩ := hfits
      obtain rfl := expectedBody?_eq_some hE
      rw [hE, acceptType_of_ne hne] at h
      obtain ⟨e', rfl, hrule⟩ := h.exists_of_error rfl
      rw [acceptType_of_ne (by simpa using hne)]
      exact .error hrule

/-! ## Terms -/

/-- The type that is found with a core term is the one of that term. -/
theorem agrees_elaborate {s : Surface.Term}
    (hc : s.nameless? (scope.kinds.map Prod.fst) (scope.types.map Prod.fst) = some c) :
    Agrees (fun T => (c, T)) (sig.elaborate scope expected s) (sig.typeOfAs scope.context expected c) := by
  induction s generalizing scope expected c with
  | ref address =>
    cases hc
    rw [elaborate, typeOfAs, typeOf]
    cases sig.typeAt? address with
    | some T => exact agrees_settle expected _ T
    | none => exact .error rfl
  | var name =>
    obtain ⟨i, hi, rfl⟩ := Surface.Term.nameless?_var_iff.mp hc
    obtain ⟨b, hb⟩ := lookupIndexed?_of_idxOf? hi
    have hlookup : scope.lookupType? name = some (i, b.typeAt scope.kinds.length) :=
      Option.map_eq_some_iff.mpr ⟨_, hb, rfl⟩
    rw [elaborate, hlookup, typeOfAs, typeOf, Scope.lookup?_context hlookup]
    exact agrees_settle expected _ _
  | pack address =>
    cases hc
    exact (Agrees.liftCore _).bind fun T => agrees_settle expected _ T
  | unpack address =>
    cases hc
    exact (Agrees.liftCore _).bind fun T => agrees_settle expected _ T
  | app f a ihf iha =>
    obtain ⟨f', a', hf, ha, rfl⟩ := Surface.Term.nameless?_app_iff.mp hc
    rw [elaborate, typeOfAs_app]
    refine (ihf hf).bind fun F => ?_
    dsimp only
    cases F.asArrow? with
    | some p =>
      refine (iha ha).bind fun _ => ?_
      exact agrees_settle expected _ p.2
    | none =>
      -- whatever becomes of the argument, it is the function that is reported
      dsimp only
      cases sig.elaborate scope none a with
      | ok p => exact .error rfl
      | error e => exact .error rfl
  | lam name domain body ih =>
    cases domain with
    | none => cases hc
    | some t =>
      obtain ⟨t', body', ht, hbody, rfl⟩ := Surface.Term.nameless?_lam_iff.mp hc
      rw [elaborate, typeOfAs_lam, ← Scope.context_pushType scope name]
      refine (agrees_elaborateTyAt ht .star).bind fun _ => ?_
      refine (ih hbody).bind fun B => ?_
      exact agrees_settle expected _ _
  | tapp f t ih =>
    obtain ⟨f', t', hf, ht, rfl⟩ := Surface.Term.nameless?_tapp_iff.mp hc
    rw [elaborate, typeOfAs_tapp]
    refine (ih hf).bind fun F => ?_
    cases F with
    | all k B =>
      refine (agrees_elaborateTyAt ht k).bind fun _ => ?_
      exact agrees_settle expected _ _
    | _ =>
      dsimp only
      cases sig.elaborateTy scope t with
      | ok p => exact .error rfl
      | error e => exact .error rfl
  | tlam name k body ih =>
    obtain ⟨body', hbody, rfl⟩ := Surface.Term.nameless?_tlam_iff.mp hc
    have hbody' : body.nameless? ((scope.pushKind name k).kinds.map Prod.fst)
        ((scope.pushKind name k).types.map Prod.fst) = some body' := hbody
    rw [elaborate]
    exact agrees_tlam (ih hbody')
  | ann t type => cases hc

/-- A term with bound names and with types at exactly its parameters denotes a core term.  It is elaborated
exactly if the core term has a type, and then to that term and with that type; and if the core term breaks a
rule, then elaboration reports that rule. -/
theorem elaboration_agrees (sig : Signature) (scope : Scope) (s : Surface.Term) (hs : s.IsAnnotated)
    (hnames : s.NamesBound (scope.kinds.map Prod.fst) (scope.types.map Prod.fst)) :
    ∃ c, s.nameless? (scope.kinds.map Prod.fst) (scope.types.map Prod.fst) = some c ∧
      (∀ c' T, sig.elaborate scope none s = .ok (c', T) ↔
        sig.typeOf scope.context c = .ok T ∧ c' = c) ∧
      ∀ e, sig.typeOf scope.context c = .error e →
        ∃ e', sig.elaborate scope none s = .error (.core e') ∧ e'.rule = e.rule := by
  obtain ⟨c, hc⟩ := Surface.Term.nameless?_eq_some_iff.mpr ⟨hs, hnames⟩
  have h : Agrees (fun T => (c, T)) (sig.elaborate scope none s) (sig.typeOfAs scope.context none c) :=
    agrees_elaborate hc
  rw [typeOfAs_none] at h
  refine ⟨c, hc, ?_, ?_⟩
  · intro c' T
    rw [h.eq_ok_iff]
    constructor
    · rintro ⟨T', hT, heq⟩
      cases heq
      exact ⟨hT, rfl⟩
    · rintro ⟨hT, rfl⟩
      exact ⟨T, hT, rfl⟩
  · intro e he
    exact h.exists_of_error he

/-- The polymorphic argument binds the names `a` and `x` of the scope again.  Where its parameter has the outer
type `Byte`, elaboration reports a part of the argument, and the core calculus all of it. -/
theorem elaboration_agrees_shadowed :
    let scope := (Scope.empty.pushKind "a" .star).pushType "x" .byte
    let identities := Surface.Ty.all "a" .star (.app (.app (.con .arrow) (.var "a")) (.var "a"))
    let use := Surface.Term.lam "f" (some identities) (.app (.tapp (.var "f") (.con .byte)) (.var "x"))
    let s := fun T => Surface.Term.app use (.tlam "a" .star (.lam "x" (some T) (.var "x")))
    let use' := Term.lam (.all .star (.arrow (.var 0) (.var 0))) (.app (.tapp (.var 0) .byte) (.var 1))
    let c := fun T => Term.app use' (.tlam .star (.lam T (.var 0)))
    let Γ := scope.context
    Signature.empty.elaborate scope none (s (.var "a")) = .ok (c (.var 0), .byte) ∧
      Signature.empty.typeOf Γ (c .byte) = .error (.typeMismatch (.tlam .star (.lam .byte (.var 0)))
        (.all .star (.arrow (.var 0) (.var 0))) (.all .star (.arrow .byte .byte))) ∧
      ∃ e', Signature.empty.elaborate scope none (s (.con .byte)) = .error (.core e') ∧
        e'.rule = .typeMismatch := by
  intro scope identities use s use' c Γ
  have hs : ∀ T, (s T).IsAnnotated := fun _ => ⟨⟨trivial, trivial⟩, trivial⟩
  have hvar : (s (.var "a")).nameless? ["a"] ["x"] = some (c (.var 0)) := by decide +kernel
  have hbyte : (s (.con .byte)).nameless? ["a"] ["x"] = some (c .byte) := by decide +kernel
  have herror : Signature.empty.typeOf Γ (c .byte) = .error (.typeMismatch
      (.tlam .star (.lam .byte (.var 0))) (.all .star (.arrow (.var 0) (.var 0)))
      (.all .star (.arrow .byte .byte))) := by
    decide +kernel
  refine ⟨?_, herror, ?_⟩
  · obtain ⟨c', hc', hok, -⟩ := elaboration_agrees .empty scope (s (.var "a")) (hs _)
      (Surface.Term.nameless?_eq_some_iff.mp ⟨_, hvar⟩).2
    obtain rfl := Option.some.inj (hvar.symm.trans hc')
    exact (hok _ _).mpr ⟨by decide +kernel, rfl⟩
  · obtain ⟨c', hc', -, hrule⟩ := elaboration_agrees .empty scope (s (.con .byte)) (hs _)
      (Surface.Term.nameless?_eq_some_iff.mp ⟨_, hbyte⟩).2
    obtain rfl := Option.some.inj (hbyte.symm.trans hc')
    exact hrule _ herror

end Signature

end AddressedF
