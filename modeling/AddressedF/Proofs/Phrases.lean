import AddressedF.Proofs.Legibility
import AddressedF.Ty.Printer

/-!
# Types in Words

A type is written as a row of words with blanks between them.  A word is a constant, a number, an address, or
a type in parentheses.  Two things are not of this form: an arrow between two types, which looks like a word
but is none, and a quantifier, whose body goes on to the end.

## Main Definitions

* `Ty.Shape`: quantified types, function types and all others
* `Ty.text`, `Ty.wordText`, `Ty.bodyText`: a type by itself, as a word, and after a quantifier
* `Ty.phrase`: the words that a type in front of an arrow is written with
* `Ty.mark`: what the first character of a word tells

## Main Results

* `Ty.induction_arrow`: an induction that follows the shapes
* `Ty.text_of_plain`, `Ty.text_arrow`, `Ty.text_all`: the text of a type of each shape
* `Ty.mark_eq`: words with the same text have the same mark

## Design Notes

An application is taken apart from its end, but is written from its head.  Phrases have the head in front, so
texts are compared from the left, as they are read.
-/

namespace AddressedF

/-! ## Function types apart from other applications -/

namespace Ty

/-- The three ways in which a type is written by itself. -/
inductive Shape : Ty → Prop where
  | all (k : Kind) (b : Ty) : Shape (all k b)
  | arrow (a b : Ty) : Shape (arrow a b)
  | plain {t : Ty} (harrow : t.isArrow = false) (hquantified : t.isQuantified = false) : Shape t

theorem shape (t : Ty) : Shape t := by
  cases h : t.asArrow? with
  | some parts =>
    rw [eq_arrow_of_asArrow? (a := parts.1) (b := parts.2) h]
    exact .arrow _ _
  | none =>
    have harrow : t.isArrow = false := by rw [isArrow, h, Option.isSome_none]
    cases t with
    | all k b => exact .all k b
    | con | var | app | ref => exact .plain harrow rfl

/-- Induction on types in which a function type is made of its domain and its codomain. -/
theorem induction_arrow {motive : Ty → Prop} (con : ∀ c, motive (con c)) (var : ∀ i, motive (var i))
    (ref : ∀ address, motive (ref address)) (all : ∀ k b, motive b → motive (all k b))
    (arrow : ∀ a b, motive a → motive b → motive (arrow a b))
    (app : ∀ f a, (app f a).isArrow = false → motive f → motive a → motive (app f a)) (t : Ty) :
    motive t := by
  -- the domain of a function type is one application further in
  have h : motive t ∧ ∀ f a, t = .app f a → motive a := by
    induction t with
    | con c => exact ⟨con c, fun _ _ h => (nomatch h)⟩
    | var i => exact ⟨var i, fun _ _ h => (nomatch h)⟩
    | ref address => exact ⟨ref address, fun _ _ h => (nomatch h)⟩
    | all k b ih => exact ⟨all k b ih.1, fun _ _ h => (nomatch h)⟩
    | app f a ihf iha =>
      refine ⟨?_, fun _ _ h => (Ty.app.inj h).2 ▸ iha.1⟩
      cases shape (.app f a) with
      | arrow d _ => exact arrow d a (ihf.2 _ _ rfl) iha.1
      | plain harrow _ => exact app f a harrow ihf.1 iha.1
  exact h.1

/-! ## Words and phrases -/

/-- The characters of a type by itself. -/
def text (t : Ty) : List Char :=
  t.render.toList

/-- The characters of a type as a word. -/
def wordText (t : Ty) : List Char :=
  t.renderAtom.toList

/-- The characters of a type after a quantifier. -/
def bodyText (t : Ty) : List Char :=
  (renderAt .quantified t).toList

/-- The characters of further words. -/
def wordsText (words : List Ty) : List Char :=
  words.flatMap fun t => ' ' :: t.wordText

/-- The words that a type in front of an arrow is written with: a function type is one word, of any other type
the head and the arguments are words. -/
def phrase (t : Ty) : Ty × List Ty :=
  if t.isArrow then (t, []) else t.appSpine

/-- The characters of a first word and further ones. -/
def phraseText (p : Ty × List Ty) : List Char :=
  p.1.wordText ++ wordsText p.2

theorem apply_phrase (t : Ty) : t.phrase.1.apply t.phrase.2 = t := by
  unfold phrase
  split
  · rfl
  · exact apply_appSpine t

theorem eq_all_of_isQuantified {t : Ty} (h : t.isQuantified = true) : ∃ k b, t = all k b := by
  cases t with
  | all k b => exact ⟨k, b, rfl⟩
  | con | var | app | ref => cases h

section

attribute [local simp] appSpine renderAt Position.lead

theorem wordText_of_isCompound {t : Ty} (h : t.isCompound = true) : t.wordText = '(' :: t.text ++ [')'] := by
  simp [wordText, text, renderAtom, enclose, h]

@[simp] theorem wordText_con (c : TyCon) : (con c).wordText = c.render.toList := by
  simp [wordText, renderAtom, render, enclose, isCompound]

@[simp] theorem wordText_var (i : Nat) : (var i).wordText = Nat.toDigits 10 i := by
  simp [wordText, renderAtom, render, enclose, isCompound]

@[simp] theorem wordText_ref (a : Address) : (ref a).wordText = '#' :: a.hex.toList := by
  simp [wordText, renderAtom, render, enclose, isCompound]

theorem wordsText_cons (t : Ty) (ts : List Ty) : wordsText (t :: ts) = ' ' :: (t.wordText ++ wordsText ts) :=
  rfl

theorem wordsText_append (ts us : List Ty) : wordsText (ts ++ us) = wordsText ts ++ wordsText us :=
  List.flatMap_append

/-! ## The parts of a written form -/

theorem renderAt_app {p : Position} {f a : Ty} (hp : p ≠ .head) (h : (app f a).isArrow = false) :
    renderAt p (app f a) =
      p.lead ++ renderAt .head f ++ " " ++ enclose a.isCompound (renderAt .whole a) := by
  rw [renderAt]
  · rintro d rfl
    cases h
  · exact hp

theorem renderAt_arrow {p : Position} (a b : Ty) (hp : p ≠ .head) :
    renderAt p (arrow a b) =
      p.lead ++ enclose (a.isArrow || a.isQuantified) (renderAt .whole a) ++ " -> " ++ renderAt .whole b := by
  rw [renderAt]
  exact hp

/-- As a head every type is written as a phrase. -/
theorem toList_renderAt_head (t : Ty) : (renderAt .head t).toList = phraseText t.appSpine := by
  induction t with
  | con | var | ref | all =>
    simp [phraseText, wordsText, wordText, renderAtom, render, enclose, isCompound]
  | app f a ihf _ =>
    simp only [renderAt, String.toList_append, ihf, phraseText, appSpine, wordsText_append, List.append_assoc]
    simp [wordsText, wordText, renderAtom, render]

theorem text_of_plain {t : Ty} (harrow : t.isArrow = false) (hquantified : t.isQuantified = false) :
    t.text = phraseText t.phrase := by
  rw [phrase, if_neg (by simp [harrow]), ← toList_renderAt_head, text, render]
  cases t with
  | con | var | ref => simp
  | all => cases hquantified
  | app f a => rw [renderAt_app (by decide) harrow, renderAt, Position.lead, String.empty_append]

/-- In front of an arrow a type is written as a phrase. -/
theorem text_arrow (a b : Ty) : (arrow a b).text = phraseText a.phrase ++ (" -> ".toList ++ b.text) := by
  have hdomain : (enclose (a.isArrow || a.isQuantified) a.render).toList = phraseText a.phrase := by
    cases shape a with
    | all k b =>
      simp [phrase, phraseText, wordsText, wordText, renderAtom, enclose, isArrow, asArrow?, isQuantified,
        isCompound]
    | arrow d c =>
      simp [phrase, phraseText, wordsText, wordText, renderAtom, enclose, isArrow, asArrow?, isCompound]
    | plain harrow hquantified =>
      simp [harrow, hquantified, enclose, ← text_of_plain harrow hquantified, text]
  rw [text, render, renderAt_arrow a b (by decide), Position.lead, String.empty_append, String.toList_append,
    String.toList_append, ← hdomain, List.append_assoc]
  rfl

theorem text_all (k : Kind) (b : Ty) : (all k b).text = '∀' :: k.wordText ++ b.bodyText := by
  simp [text, render, Kind.wordText, bodyText]

theorem bodyText_all (k : Kind) (b : Ty) : (all k b).bodyText = ' ' :: k.wordText ++ b.bodyText := by
  simp [bodyText, Kind.wordText]

theorem bodyText_of_not_isQuantified {t : Ty} (h : t.isQuantified = false) :
    t.bodyText = ". ".toList ++ t.text := by
  rw [bodyText, text, render, ← String.toList_append]
  congr 1
  cases shape t with
  | all => cases h
  | arrow a b => simp [String.append_assoc]
  | plain harrow _ =>
    cases t with
    | con | var | ref => simp only [renderAt, Position.lead, String.append_assoc, String.empty_append]
    | all => cases h
    | app f a => simp [renderAt_app, harrow, String.append_assoc]

end

/-! ## First characters

A word is known by its first character, but for the number that it may be.  That is all that is needed to see
that texts of different shapes are different.
-/

/-- What the first character of a word tells: everything but the digits of a number. -/
def mark : Ty → Option Char
  | con .arrow => some '-'
  | con .byte => some 'B'
  | var _ => none
  | ref _ => some '#'
  | app _ _ | all _ _ => some '('

section

attribute [local simp] mark

theorem mark_eq_parenthesis_iff {t : Ty} : t.mark = some '(' ↔ t.isCompound = true := by
  cases t with
  | con c => cases c <;> simp [isCompound]
  | var | ref | app | all => simp [isCompound]

theorem exists_wordText_eq_cons (t : Ty) :
    ∃ c rest, t.wordText = c :: rest ∧ (if c.isDigit then none else some c) = t.mark := by
  cases t with
  | con c => cases c <;> exact ⟨_, _, rfl, rfl⟩
  | ref a => exact ⟨_, _, wordText_ref a, rfl⟩
  | app | all => exact ⟨_, _, wordText_of_isCompound rfl, rfl⟩
  | var i =>
    obtain ⟨c, rest, h⟩ := List.exists_cons_of_ne_nil (Nat.toDigits_ne_nil (n := i) (b := 10))
    have hmem : c ∈ Nat.toDigits 10 i := h ▸ List.mem_cons_self
    have hdigit : c.isDigit := Nat.isDigit_of_mem_toDigits (by decide) (by decide) hmem
    exact ⟨c, rest, by rw [wordText_var, h], if_pos hdigit⟩

theorem mark_eq {t t' : Ty} {rest rest' : List Char} (h : t.wordText ++ rest = t'.wordText ++ rest') :
    t.mark = t'.mark := by
  obtain ⟨c, cs, htext, hmark⟩ := exists_wordText_eq_cons t
  obtain ⟨c', cs', htext', hmark'⟩ := exists_wordText_eq_cons t'
  rw [htext, htext'] at h
  rw [← hmark, ← hmark', (List.cons.inj h).1]

theorem mark_ne_quantifier (t : Ty) : t.mark ≠ some '∀' := by
  cases t with
  | con c => cases c <;> simp
  | var | ref | app | all => simp

end

theorem phraseText_append_ne (p : Ty × List Ty) (rest rest' : List Char) :
    phraseText p ++ rest ≠ '∀' :: rest' := by
  intro h
  obtain ⟨c, cs, htext, hmark⟩ := exists_wordText_eq_cons p.1
  rw [phraseText, htext] at h
  obtain rfl := (List.cons.inj h).1
  exact mark_ne_quantifier p.1 hmark.symm

/-- Only the text of a quantified type begins with a quantifier. -/
theorem text_append_ne {t : Ty} (h : t.isQuantified = false) (rest rest' : List Char) :
    t.text ++ rest ≠ '∀' :: rest' := by
  cases shape t with
  | all => cases h
  | arrow a b =>
    rw [text_arrow, List.append_assoc]
    exact phraseText_append_ne _ _ _
  | plain harrow _ =>
    rw [text_of_plain harrow h]
    exact phraseText_append_ne _ _ _

end Ty

end AddressedF
