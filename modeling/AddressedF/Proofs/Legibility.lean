import AddressedF.Kind
import AddressedF.Proofs.Hexadecimal

/-!
# Telling Written Forms Apart

A written form stands in a longer text, and nothing marks where it ends.  Two forms can be told apart in there
if equal texts begin with the same form and go on alike.  What may follow a form is part of this: a number
ends where no digit follows, and a kind by itself ends where no arrow follows.

## Main Definitions

* `Closing`, `Boundary`: what may follow a complete form, and what may follow one word
* `TellsApart`: two things are told apart by their texts, whatever follows these

## Main Results

* `tellsApart_digits`, `Address.tellsApart_hex`: numbers and addresses are told apart
* `Kind.tellsApart`, `Kind.tellsApart_word`: kinds are told apart, by themselves and as words

## Design Notes

A form in parentheses is told apart from another whatever follows, since what follows the form inside is the
parenthesis that closes it.  So a claim about forms by themselves gives one about words, and with it the next
larger forms are reached.
-/

namespace AddressedF

/-- What may follow a complete form: nothing, or the parenthesis that closes it. -/
inductive Closing : List Char → Prop where
  | nil : Closing []
  | parenthesis (rest : List Char) : Closing (')' :: rest)

/-- What may follow a word: another word as well. -/
inductive Boundary : List Char → Prop where
  | closing {rest : List Char} (h : Closing rest) : Boundary rest
  | blank (rest : List Char) : Boundary (' ' :: rest)

theorem Closing.ne_blank {rest rest' : List Char} (h : Closing rest) : rest ≠ ' ' :: rest' := by
  rintro rfl
  cases h

theorem Boundary.takeWhile_isDigit {rest : List Char} (h : Boundary rest) :
    rest.takeWhile Char.isDigit = [] := by
  cases h with
  | closing h => cases h <;> rfl
  | blank => rfl

/-- Where the text of `x` and the text of `y` stand in front of the same, it is the same text of the same
thing, as long as what follows is allowed there. -/
def TellsApart {α : Type*} (text : α → List Char) (Follows : List Char → Prop) (x y : α) : Prop :=
  ∀ ⦃rest rest' : List Char⦄, Follows rest → Follows rest' → text x ++ rest = text y ++ rest' →
    x = y ∧ rest = rest'

namespace TellsApart

variable {α : Type*} {text : α → List Char} {Follows : List Char → Prop} {x y : α}

theorem symm (h : TellsApart text Follows x y) : TellsApart text Follows y x := by
  intro rest rest' hrest hrest' heq
  obtain ⟨hxy, heq⟩ := h hrest' hrest heq.symm
  exact ⟨hxy.symm, heq.symm⟩

/-- Anything is told apart from itself. -/
theorem refl (x : α) : TellsApart text Follows x x :=
  fun _ _ _ _ heq => ⟨rfl, List.append_cancel_left heq⟩

/-- In parentheses it does not matter what follows. -/
theorem of_parentheses (h : TellsApart text Closing x y) {rest rest' : List Char}
    (heq : '(' :: text x ++ [')'] ++ rest = '(' :: text y ++ [')'] ++ rest') : x = y ∧ rest = rest' := by
  simp only [List.cons_append, List.append_assoc, List.cons.injEq, true_and, List.nil_append] at heq
  obtain ⟨hxy, hrest⟩ := h (.parenthesis _) (.parenthesis _) heq
  exact ⟨hxy, (List.cons.inj hrest).2⟩

end TellsApart

/-! ## Numbers and addresses -/

theorem takeWhile_digits_append (n : Nat) {rest : List Char} (h : Boundary rest) :
    (Nat.toDigits 10 n ++ rest).takeWhile Char.isDigit = Nat.toDigits 10 n := by
  have hdigits : ∀ c ∈ Nat.toDigits 10 n, c.isDigit :=
    fun c => Nat.isDigit_of_mem_toDigits (by decide) (by decide)
  rw [List.takeWhile_append_of_pos hdigits, h.takeWhile_isDigit, List.append_nil]

/-- A number ends where no digit follows. -/
theorem tellsApart_digits (m n : Nat) : TellsApart (Nat.toDigits 10) Boundary m n := by
  intro rest rest' hrest hrest' heq
  have hdigits := congrArg (List.takeWhile Char.isDigit) heq
  rw [takeWhile_digits_append m hrest, takeWhile_digits_append n hrest'] at hdigits
  have hmn := congrArg (Nat.ofDigitChars 10 · 0) hdigits
  simp only [Nat.ofDigitChars_toDigits (b := 10) (by decide) (by decide)] at hmn
  subst hmn
  exact TellsApart.refl m hrest hrest' heq

/-- All addresses are written with the same number of digits. -/
theorem Address.tellsApart_hex (a b : Address) : TellsApart (fun a => a.hex.toList) Boundary a b := by
  intro rest rest' _ _ heq
  have hlength : a.hex.toList.length = b.hex.toList.length := by
    rw [toList_hex, toList_hex, length_hexOfBytes, length_hexOfBytes, length_toList, length_toList]
  obtain ⟨hhex, hrest⟩ := List.append_inj heq hlength
  exact ⟨hex_injective (String.toList_inj.mp hhex), hrest⟩

/-! ## Kinds -/

namespace Kind

/-- The characters of a kind by itself. -/
def text (k : Kind) : List Char :=
  k.render.toList

/-- The characters of a kind as a word. -/
def wordText (k : Kind) : List Char :=
  k.renderAtom.toList

@[simp] theorem text_star : text star = ['*'] := rfl

@[simp] theorem text_arrow (d c : Kind) : (arrow d c).text = d.wordText ++ " -> ".toList ++ c.text := by
  simp only [text, wordText, render, renderAtom, String.toList_append]

@[simp] theorem wordText_star : wordText star = ['*'] := rfl

@[simp] theorem wordText_arrow (d c : Kind) :
    (arrow d c).wordText = '(' :: (arrow d c).text ++ [')'] := by
  simp [text, wordText, renderAtom, enclose, isArrow]

/-- A kind that is told apart by itself is so as a word, whatever follows. -/
theorem tellsApart_word_of {k k' : Kind} (h : TellsApart text Closing k k') :
    TellsApart wordText (fun _ => True) k k' := by
  intro rest rest' hrest hrest' heq
  cases k with
  | star =>
    cases k' with
    | star => exact ⟨rfl, List.append_cancel_left heq⟩
    | arrow d' c' => simp at heq
  | arrow d c =>
    cases k' with
    | star => simp at heq
    | arrow d' c' =>
      rw [wordText_arrow, wordText_arrow] at heq
      exact h.of_parentheses heq

/-- After `*` by itself there is no arrow. -/
theorem tellsApart_star_arrow (d c : Kind) : TellsApart text Closing star (arrow d c) := by
  intro rest rest' hrest _ heq
  cases d with
  | star =>
    simp only [text_star, text_arrow, wordText_star, List.append_assoc] at heq
    exact absurd (List.cons.inj heq).2 hrest.ne_blank
  | arrow d d' => simp at heq

/-- Kinds by themselves are told apart. -/
theorem tellsApart (k k' : Kind) : TellsApart text Closing k k' := by
  induction k generalizing k' with
  | star =>
    cases k' with
    | star => exact TellsApart.refl star
    | arrow d' c' => exact tellsApart_star_arrow d' c'
  | arrow d c ihd ihc =>
    cases k' with
    | star => exact (tellsApart_star_arrow d c).symm
    | arrow d' c' =>
      intro rest rest' hrest hrest' heq
      simp only [text_arrow, List.append_assoc] at heq
      obtain ⟨rfl, harrow⟩ := tellsApart_word_of (ihd d') trivial trivial heq
      obtain ⟨rfl, hend⟩ := ihc c' hrest hrest' (List.append_cancel_left harrow)
      exact ⟨rfl, hend⟩

theorem tellsApart_word (k k' : Kind) : TellsApart wordText (fun _ => True) k k' :=
  tellsApart_word_of (tellsApart k k')

theorem render_injective : Function.Injective render := by
  intro k k' h
  have heq : k.text ++ [] = k'.text ++ [] := by rw [text, text, h]
  exact (tellsApart k k' .nil .nil heq).1

end Kind

end AddressedF
