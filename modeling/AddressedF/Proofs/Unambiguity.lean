import AddressedF.Proofs.Kinding
import AddressedF.Proofs.Phrases

/-!
# The Written Form of Types is Unambiguous

Parentheses are left out wherever the reader can do without them, and the arrow by itself is written like the
arrow between two types.  So `0 -> 1` may be a function type, or variable 0 applied to the arrow and to
variable 1.  Only a kind for variable 0 decides which of the two it is, and it always does: in one context at
most one type that has a kind is written in a given way.

## Main Definitions

* `Signature.Ends`: what may follow the phrase of a type
* `Ty.Apart`: a type is told apart by its text from all other types that have a kind
* `Ty.Legible`: a type is told apart by itself, after a quantifier, and as far as its words go

## Main Results

* `Ty.eq_of_phraseText`: equal phrases that may end are phrases of one type
* `Ty.legible`: all types are legible
* `render_unambiguous`: kinds, and types with kinds, are equal if they are written alike

## Design Notes

Two phrases with the same text are compared word by word.  If one of them ends first, the other type is the
first one applied to more arguments.  What follows the phrase that ended then begins with a blank, so it is an
arrow, and terms inhabit the first type; but then it takes no arguments.  That is the one place where kinds
are needed.  All other texts are told apart by their first characters, or because their parts are.
-/

namespace AddressedF

/-! ## What a kind says about the words of a type -/

namespace Signature

variable {sig : Signature} {ks : List Kind} {t a b : Ty} {ts more : List Ty} {rest rest' : List Char}

/-- A type that has a kind. -/
def WellKinded (sig : Signature) (ks : List Kind) (t : Ty) : Prop :=
  ∃ k, sig.kindOf ks t = .ok k

theorem WellKinded.of_apply (h : sig.WellKinded ks (t.apply ts)) :
    sig.WellKinded ks t ∧ ∀ a ∈ ts, sig.WellKinded ks a := by
  induction ts generalizing t with
  | nil => exact ⟨h, fun _ ha => (nomatch ha)⟩
  | cons a ts ih =>
    obtain ⟨⟨k, happ⟩, hts⟩ := ih h
    obtain ⟨d, ht, ha⟩ := kindOf_app_iff.mp happ
    exact ⟨⟨_, ht⟩, List.forall_mem_cons.mpr ⟨⟨d, ha⟩, hts⟩⟩

theorem WellKinded.phrase (h : sig.WellKinded ks t) :
    sig.WellKinded ks t.phrase.1 ∧ ∀ a ∈ t.phrase.2, sig.WellKinded ks a := by
  rw [← t.apply_phrase] at h
  exact h.of_apply

/-- A type that terms inhabit takes no arguments. -/
theorem eq_nil_of_kindOf_star (hstar : sig.kindOf ks t = .ok .star)
    (h : sig.WellKinded ks (t.apply more)) : more = [] := by
  cases more with
  | nil => rfl
  | cons a more =>
    obtain ⟨k, happ⟩ := (WellKinded.of_apply (t := .app t a) h).1
    obtain ⟨d, ht, -⟩ := kindOf_app_iff.mp happ
    rw [hstar] at ht
    cases ht

/-- What may follow the phrase of a type: an arrow only if terms inhabit the type. -/
inductive Ends (sig : Signature) (ks : List Kind) (t : Ty) : List Char → Prop where
  | closing {rest : List Char} (h : Closing rest) : Ends sig ks t rest
  | arrow (h : sig.kindOf ks t = .ok .star) (rest : List Char) : Ends sig ks t (" -> ".toList ++ rest)

theorem Ends.boundary (h : Ends sig ks t rest) : Boundary rest := by
  cases h with
  | closing h => exact .closing h
  | arrow _ rest => exact .blank _

/-- Where the phrase of a type may end, what follows is no further argument of the type. -/
theorem Ends.eq_nil (h : Ends sig ks t (Ty.wordsText more ++ rest))
    (hmore : sig.WellKinded ks (t.apply more)) : more = [] := by
  cases more with
  | nil => rfl
  | cons a more =>
    generalize htext : Ty.wordsText (a :: more) ++ rest = text at h
    cases h with
    | closing h => exact absurd htext.symm h.ne_blank
    | arrow hstar => exact eq_nil_of_kindOf_star hstar hmore

end Signature

open Signature

namespace Ty

variable {sig : Signature} {ks : List Kind} {t t' a b f : Ty} {ts ts' : List Ty} {rest rest' : List Char}

/-- A type is told apart by its text from all types that have a kind where it has one itself. -/
def Apart (sig : Signature) (text : Ty → List Char) (Follows : List Char → Prop) (t : Ty) : Prop :=
  ∀ ⦃ks t'⦄, sig.WellKinded ks t → sig.WellKinded ks t' → TellsApart text Follows t t'

/-! ## Words -/

theorem apart_word_of_not_isCompound (h : t.isCompound = false) : Apart sig wordText Boundary t := by
  intro ks t' _ _ rest rest' hrest hrest' heq
  have hmark := mark_eq heq
  cases t with
  | app | all => cases h
  | con c =>
    cases t' with
    | con c' =>
      obtain rfl : c = c' := by cases c <;> cases c' <;> simp [mark] at hmark ⊢
      exact ⟨rfl, List.append_cancel_left heq⟩
    | var | ref | app | all => cases c <;> simp [mark] at hmark
  | var i =>
    cases t' with
    | var i' =>
      rw [wordText_var, wordText_var] at heq
      obtain ⟨rfl, hend⟩ := tellsApart_digits i i' hrest hrest' heq
      exact ⟨rfl, hend⟩
    | con c' => cases c' <;> simp [mark] at hmark
    | ref | app | all => simp [mark] at hmark
  | ref address =>
    cases t' with
    | ref address' =>
      rw [wordText_ref, wordText_ref] at heq
      obtain ⟨rfl, hend⟩ := address.tellsApart_hex address' hrest hrest' (List.cons.inj heq).2
      exact ⟨rfl, hend⟩
    | con c' => cases c' <;> simp [mark] at hmark
    | var | app | all => simp [mark] at hmark

/-- A type that is told apart by itself is so as a word. -/
theorem apart_word (h : Apart sig text Closing t) : Apart sig wordText Boundary t := by
  cases hcompound : t.isCompound with
  | false => exact apart_word_of_not_isCompound hcompound
  | true =>
    intro ks t' ht ht' rest rest' _ _ heq
    have hcompound' : t'.isCompound = true := by
      rw [← mark_eq_parenthesis_iff, ← mark_eq heq, mark_eq_parenthesis_iff, hcompound]
    rw [wordText_of_isCompound hcompound, wordText_of_isCompound hcompound'] at heq
    exact (h ht ht').of_parentheses heq

theorem boundary_wordsText (ts : List Ty) (h : Boundary rest) : Boundary (wordsText ts ++ rest) := by
  cases ts with
  | nil => exact h
  | cons t ts => exact .blank _

/-- Of two rows of words with the same text one goes on where the other ends. -/
theorem wordsText_split (hts : ∀ t ∈ ts, Apart sig wordText Boundary t)
    (hkinds : ∀ t ∈ ts, sig.WellKinded ks t) (hkinds' : ∀ t ∈ ts', sig.WellKinded ks t)
    (hrest : Boundary rest) (hrest' : Boundary rest')
    (heq : wordsText ts ++ rest = wordsText ts' ++ rest') :
    (∃ more, ts' = ts ++ more ∧ rest = wordsText more ++ rest') ∨
      ∃ more, ts = ts' ++ more ∧ rest' = wordsText more ++ rest := by
  induction ts generalizing ts' with
  | nil => exact .inl ⟨ts', rfl, heq⟩
  | cons t ts ih =>
    cases ts' with
    | nil => exact .inr ⟨t :: ts, rfl, heq.symm⟩
    | cons t' ts' =>
      rw [List.forall_mem_cons] at hts hkinds hkinds'
      simp only [wordsText_cons, List.cons_append, List.append_assoc, List.cons.injEq, true_and] at heq
      obtain ⟨rfl, hnext⟩ := hts.1 hkinds.1 hkinds'.1 (boundary_wordsText ts hrest)
        (boundary_wordsText ts' hrest') heq
      obtain ⟨more, rfl, hmore⟩ | ⟨more, rfl, hmore⟩ := ih hts.2 hkinds.2 hkinds'.2 hnext
      · exact .inl ⟨more, rfl, hmore⟩
      · exact .inr ⟨more, rfl, hmore⟩

theorem apply_append (head : Ty) (ts us : List Ty) : head.apply (ts ++ us) = (head.apply ts).apply us :=
  List.foldl_append

/-- The words of a phrase are told apart. -/
structure WordsApart (sig : Signature) (p : Ty × List Ty) : Prop where
  head : Apart sig wordText Boundary p.1
  arguments : ∀ t ∈ p.2, Apart sig wordText Boundary t

/-- Types are told apart by their phrases, where these may end. -/
theorem eq_of_phraseText (hwords : WordsApart sig a.phrase) (ha : sig.WellKinded ks a)
    (hb : sig.WellKinded ks b) (hrest : Ends sig ks a rest) (hrest' : Ends sig ks b rest')
    (heq : phraseText a.phrase ++ rest = phraseText b.phrase ++ rest') : a = b ∧ rest = rest' := by
  rw [phraseText, phraseText, List.append_assoc, List.append_assoc] at heq
  obtain ⟨hhead, heq⟩ := hwords.head ha.phrase.1 hb.phrase.1 (boundary_wordsText _ hrest.boundary)
    (boundary_wordsText _ hrest'.boundary) heq
  obtain ⟨more, hmore, rfl⟩ | ⟨more, hmore, rfl⟩ := wordsText_split hwords.arguments ha.phrase.2 hb.phrase.2
    hrest.boundary hrest'.boundary heq
  · -- `b` is `a` with more arguments, but then the phrase of `a` does not end here
    have happly : b = a.apply more := by
      rw [← b.apply_phrase, ← hhead, hmore, apply_append, a.apply_phrase]
    rw [happly] at hb
    obtain rfl := hrest.eq_nil hb
    exact ⟨happly.symm, rfl⟩
  · have happly : a = b.apply more := by
      rw [← a.apply_phrase, hhead, hmore, apply_append, b.apply_phrase]
    rw [happly] at ha
    obtain rfl := hrest'.eq_nil ha
    exact ⟨happly, rfl⟩

/-! ## Whole types -/

theorem apart_text_of_plain (harrow : t.isArrow = false) (hquantified : t.isQuantified = false)
    (hwords : WordsApart sig t.phrase) : Apart sig text Closing t := by
  intro ks t' ht ht' rest rest' hrest hrest' heq
  cases shape t' with
  | all k b =>
    rw [text_all] at heq
    exact absurd heq (text_append_ne hquantified _ _)
  | arrow a b =>
    obtain ⟨k, hk⟩ := ht'
    obtain ⟨ha, -, -⟩ := kindOf_arrow_iff.mp hk
    rw [text_of_plain harrow hquantified, text_arrow, List.append_assoc, List.append_assoc] at heq
    -- an arrow would have to follow the text of `t`
    obtain ⟨-, hend⟩ := eq_of_phraseText hwords ht ⟨_, ha⟩ (.closing hrest) (.arrow ha _) heq
    exact absurd hend hrest.ne_blank
  | plain harrow' hquantified' =>
    rw [text_of_plain harrow hquantified, text_of_plain harrow' hquantified'] at heq
    exact eq_of_phraseText hwords ht ht' (.closing hrest) (.closing hrest') heq

theorem apart_text_arrow (hwords : WordsApart sig a.phrase) (hb : Apart sig text Closing b) :
    Apart sig text Closing (arrow a b) := by
  intro ks t' ht ht' rest rest' hrest hrest' heq
  obtain ⟨k, hk⟩ := ht
  obtain ⟨hka, hkb, -⟩ := kindOf_arrow_iff.mp hk
  cases shape t' with
  | all k b =>
    rw [text_all] at heq
    exact absurd heq (text_append_ne rfl _ _)
  | arrow a' b' =>
    obtain ⟨k', hk'⟩ := ht'
    obtain ⟨hka', hkb', -⟩ := kindOf_arrow_iff.mp hk'
    simp only [text_arrow, List.append_assoc] at heq
    obtain ⟨rfl, hnext⟩ :=
      eq_of_phraseText hwords ⟨_, hka⟩ ⟨_, hka'⟩ (.arrow hka _) (.arrow hka' _) heq
    obtain ⟨rfl, hend⟩ := hb ⟨_, hkb⟩ ⟨_, hkb'⟩ hrest hrest' (List.append_cancel_left hnext)
    exact ⟨rfl, hend⟩
  | plain harrow hquantified =>
    simp only [text_arrow, text_of_plain harrow hquantified, List.append_assoc] at heq
    obtain ⟨-, hend⟩ := eq_of_phraseText hwords ⟨_, hka⟩ ht' (.arrow hka _) (.closing hrest') heq
    exact absurd hend.symm hrest'.ne_blank

/-- A quantifier is told apart by its kind, and then by its body. -/
theorem eq_of_bodyText {k k' : Kind} {b b' : Ty} (hbody : Apart sig bodyText Closing b)
    (h : sig.WellKinded ks (all k b)) (h' : sig.WellKinded ks (all k' b')) (hrest : Closing rest)
    (hrest' : Closing rest')
    (heq : k.wordText ++ (b.bodyText ++ rest) = k'.wordText ++ (b'.bodyText ++ rest')) :
    all k b = all k' b' ∧ rest = rest' := by
  obtain ⟨rfl, hnext⟩ := k.tellsApart_word k' trivial trivial heq
  obtain ⟨_, hk⟩ := h
  obtain ⟨_, hk'⟩ := h'
  have hb := (kindOf_all_iff.mp hk).1
  have hb' := (kindOf_all_iff.mp hk').1
  obtain ⟨rfl, hend⟩ := hbody ⟨_, hb⟩ ⟨_, hb'⟩ hrest hrest' hnext
  exact ⟨rfl, hend⟩

theorem apart_text_all {k : Kind} (hbody : Apart sig bodyText Closing b) :
    Apart sig text Closing (all k b) := by
  intro ks t' ht ht' rest rest' hrest hrest' heq
  rw [text_all] at heq
  cases h : t'.isQuantified with
  | false => exact absurd heq.symm (text_append_ne h _ _)
  | true =>
    obtain ⟨k', b', rfl⟩ := eq_all_of_isQuantified h
    rw [text_all] at heq
    simp only [List.cons_append, List.append_assoc] at heq
    exact eq_of_bodyText hbody ht ht' hrest hrest' (List.cons.inj heq).2

theorem apart_bodyText_all {k : Kind} (hbody : Apart sig bodyText Closing b) :
    Apart sig bodyText Closing (all k b) := by
  intro ks t' ht ht' rest rest' hrest hrest' heq
  rw [bodyText_all] at heq
  cases h : t'.isQuantified with
  | false =>
    rw [bodyText_of_not_isQuantified h] at heq
    simp at heq
  | true =>
    obtain ⟨k', b', rfl⟩ := eq_all_of_isQuantified h
    rw [bodyText_all] at heq
    simp only [List.cons_append, List.append_assoc] at heq
    exact eq_of_bodyText hbody ht ht' hrest hrest' (List.cons.inj heq).2

theorem apart_bodyText (h : t.isQuantified = false) (htext : Apart sig text Closing t) :
    Apart sig bodyText Closing t := by
  intro ks t' ht ht' rest rest' hrest hrest' heq
  rw [bodyText_of_not_isQuantified h] at heq
  cases h' : t'.isQuantified with
  | false =>
    rw [bodyText_of_not_isQuantified h', List.append_assoc, List.append_assoc] at heq
    exact htext ht ht' hrest hrest' (List.append_cancel_left heq)
  | true =>
    obtain ⟨k', b', rfl⟩ := eq_all_of_isQuantified h'
    rw [bodyText_all] at heq
    simp at heq

/-- Everything that a type is written with is told apart. -/
structure Legible (sig : Signature) (t : Ty) : Prop where
  text : Apart sig Ty.text Closing t
  body : Apart sig bodyText Closing t
  words : WordsApart sig t.appSpine

namespace Legible

theorem phrase (h : Legible sig t) : WordsApart sig t.phrase := by
  unfold Ty.phrase
  split
  · exact ⟨apart_word h.text, fun _ ha => (nomatch ha)⟩
  · exact h.words

theorem of_plain (harrow : t.isArrow = false) (hquantified : t.isQuantified = false)
    (hwords : WordsApart sig t.appSpine) : Legible sig t := by
  have htext : Apart sig Ty.text Closing t := by
    refine apart_text_of_plain harrow hquantified ?_
    rwa [Ty.phrase, if_neg (by simp [harrow])]
  exact ⟨htext, apart_bodyText hquantified htext, hwords⟩

theorem all {k : Kind} (h : Legible sig b) : Legible sig (all k b) := by
  have htext : Apart sig Ty.text Closing (Ty.all k b) := apart_text_all h.body
  exact ⟨htext, apart_bodyText_all h.body, apart_word htext, fun _ ha => (nomatch ha)⟩

theorem wordsApart_app (hf : WordsApart sig f.appSpine) (ha : Legible sig a) :
    WordsApart sig (app f a).appSpine := by
  refine ⟨hf.head, fun t ht => ?_⟩
  obtain ht | ht := List.mem_append.mp ht
  · exact hf.arguments t ht
  · rw [List.mem_singleton.mp ht]
    exact apart_word ha.text

theorem wordsApart_of_not_isCompound (h : t.isCompound = false) : WordsApart sig t.appSpine := by
  cases t with
  | app | all => cases h
  | con | var | ref => exact ⟨apart_word_of_not_isCompound rfl, fun _ ha => (nomatch ha)⟩

theorem arrow (ha : Legible sig a) (hb : Legible sig b) : Legible sig (arrow a b) := by
  have htext := apart_text_arrow ha.phrase hb.text
  refine ⟨htext, apart_bodyText rfl htext, ?_⟩
  exact wordsApart_app (wordsApart_app (wordsApart_of_not_isCompound rfl) ha) hb

end Legible

theorem legible (sig : Signature) (t : Ty) : Legible sig t := by
  induction t using induction_arrow with
  | con c => exact .of_plain rfl rfl (Legible.wordsApart_of_not_isCompound rfl)
  | var i => exact .of_plain rfl rfl (Legible.wordsApart_of_not_isCompound rfl)
  | ref address => exact .of_plain rfl rfl (Legible.wordsApart_of_not_isCompound rfl)
  | all k b ih => exact ih.all
  | arrow a b iha ihb => exact iha.arrow ihb
  | app f a harrow ihf iha => exact .of_plain harrow rfl (Legible.wordsApart_app ihf.words iha)

end Ty

/-- Kinds that are written alike are equal, and so are types that are written alike and have kinds in the same
context. -/
theorem render_unambiguous (sig : Signature) (ks : List Kind) :
    (∀ k k' : Kind, k.render = k'.render → k = k') ∧
    ∀ t t' : Ty, sig.WellKinded ks t → sig.WellKinded ks t' → t.render = t'.render → t = t' := by
  refine ⟨fun k k' h => Kind.render_injective h, ?_⟩
  intro t t' ht ht' h
  have heq : t.text ++ [] = t'.text ++ [] := by rw [Ty.text, Ty.text, h]
  exact ((t.legible sig).text ht ht' .nil .nil heq).1

/-- The first of three arrows is an argument, the second one is not: in this context variable 0 takes one. -/
theorem render_unambiguous_arrow_argument :
    let ks : List Kind := [.arrow (.arrow .star (.arrow .star .star)) .star, .star]
    let t := Ty.arrow (.app (.var 0) (.con .arrow)) (.arrow (.var 1) (.var 1))
    let t' := (Ty.arrow (.app (.var 1) (.var 0)) (.arrow (.var 2) (.var 2))).instantiate (.con .arrow)
    Signature.empty.WellKinded ks t ∧ Signature.empty.WellKinded ks t' ∧
      t.render = "0 -> -> 1 -> 1" ∧ t'.render = "0 -> -> 1 -> 1" ∧ t = t' := by
  intro ks t t'
  have ht : Signature.empty.WellKinded ks t := ⟨.star, rfl⟩
  have ht' : Signature.empty.WellKinded ks t' := ⟨.star, rfl⟩
  have htext : t.render = "0 -> -> 1 -> 1" := by decide
  have htext' : t'.render = "0 -> -> 1 -> 1" := by decide
  exact ⟨ht, ht', htext, htext',
    (render_unambiguous Signature.empty ks).2 t t' ht ht' (htext.trans htext'.symm)⟩

/-- Without a context it is open whether an arrow is an argument. -/
example : (Ty.app (.app (.var 0) (.con .arrow)) (.var 1)).render = (Ty.arrow (.var 0) (.var 1)).render := by
  decide

end AddressedF
