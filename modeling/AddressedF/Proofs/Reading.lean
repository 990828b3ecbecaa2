import AddressedF.Encoding.Basic
import AddressedF.Proofs.Except

/-!
# Formats and Their Readers

A format says which bytes stand for which value.  Two things are asked of its reader: it reads back what was
written, whatever follows, and on any other input it reports what is wrong with it.  Both are kept when readers
are put one after the other.

## Main Definitions

* `Format`: the bytes of each value
* `Format.PrefixFree`: where the bytes of a value end can be told from the bytes
* `Returns`: a reader returns a value and leaves the bytes after it
* `Format.IsReadBy`: a reader reads back every value of a format
* `Format.Describes`: the result of a reader is the right one for its input
* `Lossless`, `Exact`: what is asked of an encoding as a whole

## Main Results

* `Format.IsReadBy.prefixFree`: what can be read back has an end
* `Format.Describes.sequence`: readers in a row
* `Lossless.of_isReadBy`, `Exact.of_describes`: from readers to encodings

## Design Notes

A missing byte is reported only if the input can be completed, and a wrong one only if nothing that starts
like the input, and nothing the input starts with, stands for a value.  That the first of two readers meets no
end is enough for the first part, since every value has bytes; for the second part the first format must be
prefix-free, or the input could start with the bytes of another value.
-/

namespace AddressedF

variable {α β γ : Type} {input : List UInt8}

/-- The bytes that stand for each value. -/
def Format (α : Type) :=
  α → List UInt8 → Prop

/-- The format of what is written by a function. -/
def Format.of (encode : α → Except EncodeError (List UInt8)) : Format α :=
  fun x bytes => encode x = .ok bytes

/-- A reader returns the value `x` and leaves `rest`. -/
def Returns (r : Except DecodeError (Parsed α input)) (x : α) (rest : List UInt8) : Prop :=
  r.map Parsed.toProd = .ok (x, rest)

/-- A reader reads back every value, whatever follows its bytes. -/
def Format.IsReadBy (F : Format α)
    (read : (input : List UInt8) → Except DecodeError (Parsed α input)) : Prop :=
  ∀ ⦃x d⦄ rest, F x d → Returns (read (d ++ rest)) x rest

/-! ## Reading back -/

namespace Returns

theorem iff_exists {r : Except DecodeError (Parsed α input)} {x : α} {rest : List UInt8} :
    Returns r x rest ↔ ∃ p, r = .ok p ∧ p.value = x ∧ p.rest = rest := by
  cases r with
  | error e => simp [Returns, Except.map]
  | ok p => simp [Returns, Except.map, Parsed.toProd]

/-- Reading a value that is made of another one. -/
theorem map {r : Except DecodeError (Parsed α input)} {x : α} {rest : List UInt8} (f : α → β)
    (h : Returns r x rest) : Returns (do let p ← r; return p.map f) (f x) rest := by
  obtain ⟨p, rfl, rfl, rfl⟩ := iff_exists.mp h
  rfl

/-- Reading a value after a tag. -/
theorem tagged {r : Except DecodeError (Parsed α input)} {x : α} {rest : List UInt8} (tag : UInt8)
    (h : Returns r x rest) : Returns (do let p ← r; return p.afterByte tag) x rest := by
  obtain ⟨p, rfl, rfl, rfl⟩ := iff_exists.mp h
  rfl

/-- Reading two values in a row. -/
theorem sequence {first : Except DecodeError (Parsed α input)}
    {second : (input : List UInt8) → Except DecodeError (Parsed β input)} {x : α} {y : β}
    {mid rest : List UInt8} (f : α → β → γ) (hfirst : Returns first x mid)
    (hsecond : Returns (second mid) y rest) :
    Returns (do let p ← first; let q ← second p.rest; return (p.after q).map (f p.value)) (f x y)
      rest := by
  obtain ⟨p, rfl, rfl, rfl⟩ := iff_exists.mp hfirst
  obtain ⟨q, hq, rfl, rfl⟩ := iff_exists.mp hsecond
  show Returns (second p.rest >>= _) _ _
  rw [hq]
  rfl

theorem taggedMap {r : Except DecodeError (Parsed α input)} {x : α} {rest : List UInt8} (tag : UInt8)
    (f : α → β) (h : Returns r x rest) :
    Returns (do let p ← r; return (p.map f).afterByte tag) (f x) rest := by
  have := (h.map f).tagged tag
  simpa only [bind_assoc, pure_bind] using this

theorem taggedSequence {first : Except DecodeError (Parsed α input)}
    {second : (input : List UInt8) → Except DecodeError (Parsed β input)} {x : α} {y : β}
    {mid rest : List UInt8} (tag : UInt8) (f : α → β → γ) (hfirst : Returns first x mid)
    (hsecond : Returns (second mid) y rest) :
    Returns (do let p ← first; let q ← second p.rest
                return ((p.after q).map (f p.value)).afterByte tag) (f x y) rest := by
  have := (hfirst.sequence f hsecond).tagged tag
  simpa only [bind_assoc, pure_bind] using this

/-- Behind the tag of a constructor only that constructor is read. -/
theorem exists_of_taggedMap {r : Except DecodeError (Parsed α input)} {tag : UInt8} {f : α → β} {z : β}
    {rest : List UInt8} (h : Returns (do let p ← r; return (p.map f).afterByte tag) z rest) :
    ∃ x, z = f x := by
  cases r with
  | error cause => cases h
  | ok p =>
    cases h
    exact ⟨p.value, rfl⟩

theorem exists_of_taggedSequence {first : Except DecodeError (Parsed α input)}
    {second : (input : List UInt8) → Except DecodeError (Parsed β input)} {tag : UInt8}
    {f : α → β → γ} {z : γ} {rest : List UInt8}
    (h : Returns (do let p ← first; let q ← second p.rest
                     return ((p.after q).map (f p.value)).afterByte tag) z rest) :
    ∃ x y, z = f x y := by
  cases first with
  | error cause => cases h
  | ok p =>
    replace h : Except.map _ (second p.rest >>= _) = _ := h
    cases hq : second p.rest with
    | error cause =>
      rw [hq] at h
      cases h
    | ok q =>
      rw [hq] at h
      cases h
      exact ⟨p.value, q.value, rfl⟩

end Returns

/-! ## Comparing inputs with a format -/

/-- One of two byte strings is the beginning of the other. -/
def Comparable (d e : List UInt8) : Prop :=
  d <+: e ∨ e <+: d

namespace Comparable

variable {c d e : List UInt8}

theorem cons_iff {s t : UInt8} : Comparable (s :: d) (t :: e) ↔ s = t ∧ Comparable d e := by
  simp only [Comparable, List.cons_prefix_cons]
  constructor
  · rintro (⟨rfl, h⟩ | ⟨rfl, h⟩)
    · exact ⟨rfl, .inl h⟩
    · exact ⟨rfl, .inr h⟩
  · rintro ⟨rfl, h⟩
    exact h.imp (⟨rfl, ·⟩) (⟨rfl, ·⟩)

theorem append_iff : Comparable (c ++ d) (c ++ e) ↔ Comparable d e := by
  simp only [Comparable, List.prefix_append_right_inj]

/-- What comes later in two byte strings can only tell them apart. -/
theorem of_append {d' e' : List UInt8} (h : Comparable (d ++ d') (e ++ e')) : Comparable d e := by
  rcases h with h | h
  · exact List.prefix_or_prefix_of_prefix ((List.prefix_append d d').trans h) (List.prefix_append e e')
  · exact List.prefix_or_prefix_of_prefix (List.prefix_append d d') ((List.prefix_append e e').trans h)

end Comparable

namespace Format

/-- The bytes of no value are the beginning of the bytes of another one. -/
def PrefixFree (F : Format α) : Prop :=
  ∀ ⦃x d y e⦄, F x d → F y e → d <+: e → d = e

/-- The input breaks off inside of a value. -/
def IsTruncated (F : Format α) (input : List UInt8) : Prop :=
  ∃ x e, F x e ∧ input <+: e ∧ input ≠ e

/-- The input can not be completed to a value and does not start with one. -/
def IsForeign (F : Format α) (input : List UInt8) : Prop :=
  ∀ x e, F x e → ¬ Comparable input e

/-- The bytes of a value, taken for another one. -/
def map (F : Format α) (f : α → β) : Format β :=
  fun z e => ∃ x, F x e ∧ z = f x

/-- The bytes of two values in a row, taken for one value. -/
def sequence (F : Format α) (G : Format β) (f : α → β → γ) : Format γ :=
  fun z e => ∃ x d y d', F x d ∧ G y d' ∧ z = f x y ∧ e = d ++ d'

/-- The result of reading from the front of `input` is what the format says about the input. -/
def Describes (F : Format α) : Except DecodeError (Parsed α input) → Prop
  | .ok p => ∃ e, F p.value e ∧ input = e ++ p.rest
  | .error (.unexpectedEnd _) => F.IsTruncated input
  | .error (.invalidTag _) | .error (.invalidConstant _ _) => F.IsForeign input
  | .error (.trailingBytes _ _) => False

variable {F : Format α} {G : Format β} {H : Format γ} {f : α → β → γ} {tag : UInt8}

theorem IsReadBy.prefixFree {read : (input : List UInt8) → Except DecodeError (Parsed α input)}
    (h : F.IsReadBy read) : F.PrefixFree := by
  rintro x d y e hd he ⟨rest, rfl⟩
  have hx := h rest hd
  have hy := h [] he
  rw [List.append_nil] at hy
  rw [Returns, hy] at hx
  cases hx
  rw [List.append_nil]

/-- What is not read stands for nothing. -/
theorem IsReadBy.not_of_error {read : (input : List UInt8) → Except DecodeError (Parsed α input)}
    (h : F.IsReadBy read) {d : List UInt8} {cause : DecodeError} (hd : read d = .error cause) (x : α) :
    ¬ F x d := by
  intro hx
  have hr := h [] hx
  rw [List.append_nil, Returns, hd] at hr
  cases hr

theorem PrefixFree.eq_of_comparable (hF : F.PrefixFree) {x y : α} {d e : List UInt8} (hd : F x d)
    (he : F y e) (h : Comparable d e) : d = e := by
  rcases h with h | h
  · exact hF hd he h
  · exact (hF he hd h).symm

/-- What is wrong with a part of the input is wrong with the whole. -/
theorem Describes.error {input' : List UInt8} {cause : DecodeError}
    (htruncated : F.IsTruncated input → G.IsTruncated input')
    (hforeign : F.IsForeign input → G.IsForeign input')
    (h : F.Describes (.error cause : Except DecodeError (Parsed α input))) :
    G.Describes (.error cause : Except DecodeError (Parsed β input')) := by
  cases cause with
  | unexpectedEnd => exact htruncated h
  | invalidTag | invalidConstant => exact hforeign h
  | trailingBytes => exact h

/-! ## Readers for parts of a format -/

/-- No value has a tag that no value starts with. -/
theorem isForeign_cons (hnil : ∀ x, ¬ F x []) (htag : ∀ x e, ¬ F x (tag :: e)) :
    F.IsForeign (tag :: input) := by
  intro x e he h
  cases e with
  | nil => exact hnil x he
  | cons tag' e =>
    obtain ⟨rfl, -⟩ := Comparable.cons_iff.mp h
    exact htag x e he

/-- A second byte may spoil an input as well. -/
theorem isForeign_cons_cons {tag' : UInt8} (hnil : ∀ x, ¬ F x []) (hone : ∀ x, ¬ F x [tag])
    (htwo : ∀ x e, ¬ F x (tag :: tag' :: e)) : F.IsForeign (tag :: tag' :: input) := by
  intro x e he h
  rcases e with _ | ⟨s, _ | ⟨t, e⟩⟩
  · exact hnil x he
  · obtain ⟨rfl, -⟩ := Comparable.cons_iff.mp h
    exact hone x he
  · obtain ⟨rfl, hrest⟩ := Comparable.cons_iff.mp h
    obtain ⟨rfl, -⟩ := Comparable.cons_iff.mp hrest
    exact htwo x e he

theorem isTruncated_nil {x : α} {e : List UInt8} (h : F x e) (hnil : ∀ x, ¬ F x []) :
    F.IsTruncated [] :=
  ⟨x, e, h, List.nil_prefix, fun heq => hnil x (heq ▸ h)⟩

namespace Describes

theorem map {r : Except DecodeError (Parsed α input)} (f : α → β) (h : F.Describes r) :
    (F.map f).Describes (do let p ← r; return p.map f) := by
  cases r with
  | ok p =>
    obtain ⟨e, he, hinput⟩ := h
    exact ⟨e, ⟨p.value, he, rfl⟩, hinput⟩
  | error cause =>
    refine error ?_ ?_ h
    · rintro ⟨x, e, he, hlt⟩
      exact ⟨f x, e, ⟨x, he, rfl⟩, hlt⟩
    · rintro hforeign z e ⟨x, he, -⟩
      exact hforeign x e he

/-- A reader behind a tag, where all values with this tag are read by it. -/
theorem tagged {H : Format α} {r : Except DecodeError (Parsed α input)}
    (hnil : ∀ x, ¬ H x []) (htag : ∀ x e, H x (tag :: e) ↔ F x e) (h : F.Describes r) :
    H.Describes (do let p ← r; return p.afterByte tag) := by
  cases r with
  | ok p =>
    obtain ⟨e, he, hinput⟩ := h
    exact ⟨tag :: e, (htag _ e).mpr he, congrArg (tag :: ·) hinput⟩
  | error cause =>
    refine error ?_ ?_ h
    · rintro ⟨x, e, he, hbegin, hne⟩
      refine ⟨x, tag :: e, (htag x e).mpr he, List.cons_prefix_cons.mpr ⟨rfl, hbegin⟩, ?_⟩
      exact fun heq => hne (List.cons.inj heq).2
    · intro hforeign x e he hcomparable
      cases e with
      | nil => exact hnil x he
      | cons tag' e =>
        obtain ⟨rfl, hrest⟩ := Comparable.cons_iff.mp hcomparable
        exact hforeign x e ((htag x e).mp he) hrest

/-- Two readers in a row.  The first format has to be prefix-free, so that the second reader starts where the
second value does. -/
theorem sequence {first : Except DecodeError (Parsed α input)}
    {second : (input : List UInt8) → Except DecodeError (Parsed β input)} (f : α → β → γ)
    (hF : F.PrefixFree) (hG : ∃ y e, G y e) (hfirst : F.Describes first)
    (hsecond : ∀ p : Parsed α input, G.Describes (second p.rest)) :
    (F.sequence G f).Describes
      (do let p ← first; let q ← second p.rest; return (p.after q).map (f p.value)) := by
  cases first with
  | error cause =>
    refine error ?_ ?_ hfirst
    · rintro ⟨x, d, hd, hbegin, hne⟩
      -- any value of the second format completes what completes the first
      obtain ⟨y, d', hd'⟩ := hG
      refine ⟨f x y, d ++ d', ⟨x, d, y, d', hd, hd', rfl, rfl⟩,
        hbegin.trans (List.prefix_append d d'), ?_⟩
      rintro rfl
      exact hne (hbegin.eq_of_length_le (List.prefix_append d d').length_le)
    · rintro hforeign z _ ⟨x, d, y, d', hd, -, -, rfl⟩ hcomparable
      rw [← List.append_nil input] at hcomparable
      exact hforeign x d hd hcomparable.of_append
  | ok p =>
    obtain ⟨d, hd, hinput⟩ := hfirst
    have hsecond := hsecond p
    show Describes _ (second p.rest >>= _)
    cases hr : second p.rest with
    | error cause =>
      rw [hr] at hsecond
      refine error ?_ ?_ hsecond
      · rintro ⟨y, d', hd', hbegin, hne⟩
        refine ⟨f p.value y, d ++ d', ⟨_, d, y, d', hd, hd', rfl, rfl⟩, ?_, ?_⟩
        · rw [hinput]
          exact List.prefix_append_right_inj d |>.mpr hbegin
        · rw [hinput]
          exact fun heq => hne (List.append_cancel_left heq)
      · rintro hforeign z _ ⟨x, c, y, c', hc, hc', -, rfl⟩ hcomparable
        rw [hinput] at hcomparable
        -- the first value ends where the first reader stopped
        obtain rfl := hF.eq_of_comparable hd hc hcomparable.of_append
        exact hforeign y c' hc' (Comparable.append_iff.mp hcomparable)
    | ok q =>
      rw [hr] at hsecond
      obtain ⟨d', hd', hrest⟩ := hsecond
      refine ⟨d ++ d', ⟨_, d, _, d', hd, hd', rfl, rfl⟩, ?_⟩
      rw [List.append_assoc]
      exact hrest ▸ hinput

/-- The reader of a constructor with one part, behind its tag. -/
theorem taggedMap {H : Format β} {read : (input : List UInt8) → Except DecodeError (Parsed β input)}
    {readPart : (input : List UInt8) → Except DecodeError (Parsed α input)} {f : α → β}
    (hH : H.IsReadBy read) (hnil : ∀ z, ¬ H z [])
    (hread : ∀ input, read (tag :: input) =
      do let p ← readPart input; return (p.map f).afterByte tag)
    (hencode : ∀ x e, H (f x) (tag :: e) ↔ F x e) (h : F.Describes (readPart input)) :
    H.Describes (read (tag :: input)) := by
  have htag : ∀ z e, H z (tag :: e) ↔ F.map f z e := by
    intro z e
    constructor
    · intro hz
      -- the tag leads the reader to this constructor, and it reads back what was written
      have hr := hH [] hz
      rw [List.append_nil, hread] at hr
      obtain ⟨x, rfl⟩ := hr.exists_of_taggedMap
      exact ⟨x, (hencode x e).mp hz, rfl⟩
    · rintro ⟨x, hx, rfl⟩
      exact (hencode x e).mpr hx
  have := (h.map f).tagged hnil htag
  rw [hread]
  simpa only [bind_assoc, pure_bind] using this

/-- The reader of a constructor with two parts, behind its tag. -/
theorem taggedSequence {read : (input : List UInt8) → Except DecodeError (Parsed γ input)}
    {first : (input : List UInt8) → Except DecodeError (Parsed α input)}
    {second : (input : List UInt8) → Except DecodeError (Parsed β input)} {f : α → β → γ}
    (hH : H.IsReadBy read) (hnil : ∀ z, ¬ H z [])
    (hread : ∀ input, read (tag :: input) =
      do let p ← first input; let q ← second p.rest
         return ((p.after q).map (f p.value)).afterByte tag)
    (hencode : ∀ x y e, H (f x y) e ↔ ∃ d d', F x d ∧ G y d' ∧ e = tag :: (d ++ d'))
    (hF : F.IsReadBy first) (hG : ∃ y e, G y e) (hfirst : F.Describes (first input))
    (hsecond : ∀ p : Parsed α input, G.Describes (second p.rest)) :
    H.Describes (read (tag :: input)) := by
  have htag : ∀ z e, H z (tag :: e) ↔ F.sequence G f z e := by
    intro z e
    constructor
    · intro hz
      -- the tag leads the reader to this constructor, and it reads back what was written
      have hr := hH [] hz
      rw [List.append_nil, hread] at hr
      obtain ⟨x, y, rfl⟩ := hr.exists_of_taggedSequence
      obtain ⟨d, d', hd, hd', he⟩ := (hencode x y _).mp hz
      exact ⟨x, d, y, d', hd, hd', rfl, (List.cons.inj he).2⟩
    · rintro ⟨x, d, y, d', hd, hd', rfl, rfl⟩
      exact (hencode x y _).mpr ⟨d, d', hd, hd', rfl⟩
  have := (sequence f hF.prefixFree hG hfirst hsecond).tagged hnil htag
  rw [hread]
  simpa only [bind_assoc, pure_bind] using this

end Describes

/-! ## Reading all of the input -/

/-- The result of reading all of `input` is what the format says about the input. -/
def Decides (F : Format α) (grammar : Grammar) (input : List UInt8) : Except DecodeError α → Prop
  | .ok x => F x input
  | .error (.unexpectedEnd _) => F.IsTruncated input
  | .error (.trailingBytes g n) => g = grammar ∧ 0 < n ∧ ∃ x, F x (input.take (input.length - n))
  | .error (.invalidTag _) | .error (.invalidConstant _ _) => F.IsForeign input

theorem Describes.finish {r : Except DecodeError (Parsed α input)} (grammar : Grammar)
    (h : F.Describes r) : F.Decides grammar input (do (← r).finish grammar) := by
  cases r with
  | error cause =>
    cases cause with
    | unexpectedEnd | invalidTag | invalidConstant => exact h
    | trailingBytes => exact h.elim
  | ok p =>
    obtain ⟨e, he, hinput⟩ := h
    show F.Decides grammar input (p.finish grammar)
    unfold Parsed.finish
    split
    · rename_i hrest
      rw [hrest, List.append_nil] at hinput
      exact hinput ▸ he
    · rename_i hrest
      have htake : input.take (input.length - p.rest.length) = e := by
        simp [hinput]
      exact ⟨rfl, List.length_pos_iff.mpr hrest, p.value, htake ▸ he⟩

/-- An input that breaks off inside of a value starts with no value. -/
theorem PrefixFree.not_prefix_of_isTruncated (hF : F.PrefixFree) (h : F.IsTruncated input) {x : α}
    {d : List UInt8} (hd : F x d) : ¬ d <+: input := by
  obtain ⟨y, e, he, hbegin, hne⟩ := h
  intro hle
  obtain rfl := hF hd he (hle.trans hbegin)
  exact hne (hbegin.eq_of_length_le hle.length_le)

namespace Decides

variable {grammar : Grammar} {r : Except DecodeError α}

theorem unexpectedEnd (hF : F.PrefixFree) (h : F.IsTruncated input) (hr : F.Decides grammar input r) :
    ∃ expected, r = .error (.unexpectedEnd expected) := by
  cases r with
  | ok x => exact (hF.not_prefix_of_isTruncated h hr (List.prefix_refl _)).elim
  | error cause =>
    cases cause with
    | unexpectedEnd expected => exact ⟨expected, rfl⟩
    | trailingBytes g n =>
      obtain ⟨-, -, x, hx⟩ := hr
      exact (hF.not_prefix_of_isTruncated h hx (List.take_prefix _ _)).elim
    | invalidTag | invalidConstant =>
      obtain ⟨x, e, he, hbegin, -⟩ := h
      exact (hr x e he (.inl hbegin)).elim

theorem invalid (h : F.IsForeign input) (hr : F.Decides grammar input r) :
    (∃ tag, r = .error (.invalidTag tag)) ∨ ∃ g byte, r = .error (.invalidConstant g byte) := by
  cases r with
  | ok x => exact (h x input hr (.inl (List.prefix_refl _))).elim
  | error cause =>
    cases cause with
    | unexpectedEnd =>
      obtain ⟨x, e, he, hbegin, -⟩ := hr
      exact (h x e he (.inl hbegin)).elim
    | trailingBytes g n =>
      obtain ⟨-, -, x, hx⟩ := hr
      exact (h x _ hx (.inr (List.take_prefix _ _))).elim
    | invalidTag tag => exact .inl ⟨tag, rfl⟩
    | invalidConstant g byte => exact .inr ⟨g, byte, rfl⟩

end Decides

end Format

/-- Every encodable value can be read back, whatever follows its bytes, and no two values share theirs. -/
structure Lossless (encode : α → Except EncodeError (List UInt8)) (encodable : α → Prop)
    (read : (input : List UInt8) → Except DecodeError (Parsed α input))
    (decode : List UInt8 → Except DecodeError α) : Prop where
  encode_iff : ∀ x, (∃ bytes, encode x = .ok bytes) ↔ encodable x
  read_append : ∀ x bytes rest, encode x = .ok bytes →
    (read (bytes ++ rest)).map Parsed.toProd = .ok (x, rest)
  decode_encode : ∀ x bytes, encode x = .ok bytes → decode bytes = .ok x
  injective : ∀ x y bytes, encode x = .ok bytes → encode y = .ok bytes → x = y

/-- Each result of a decoder stands for one relation between its input and the bytes of values. -/
structure Exact (encode : α → Except EncodeError (List UInt8)) (grammar : Grammar)
    (decode : List UInt8 → Except DecodeError α) : Prop where
  ok_iff : ∀ input x, decode input = .ok x ↔ encode x = .ok input
  unexpectedEnd_iff : ∀ input,
    (∃ expected, decode input = .error (.unexpectedEnd expected)) ↔
      ∃ x bytes, encode x = .ok bytes ∧ input <+: bytes ∧ input ≠ bytes
  trailingBytes_iff : ∀ input g n,
    decode input = .error (.trailingBytes g n) ↔
      g = grammar ∧ 0 < n ∧ ∃ x, encode x = .ok (input.take (input.length - n))
  invalid_iff : ∀ input,
    ((∃ tag, decode input = .error (.invalidTag tag)) ∨
        ∃ g byte, decode input = .error (.invalidConstant g byte)) ↔
      ∀ x bytes, encode x = .ok bytes → ¬ input <+: bytes ∧ ¬ bytes <+: input

/-- What a decoder makes of a value that was read. -/
theorem Returns.finish {r : Except DecodeError (Parsed α input)} {x : α} {rest : List UInt8}
    (h : Returns r x rest) (grammar : Grammar) :
    (do (← r).finish grammar) =
      if rest = [] then .ok x else .error (.trailingBytes grammar rest.length) := by
  obtain ⟨p, rfl, rfl, rfl⟩ := iff_exists.mp h
  rfl

section Decoders

variable {encode : α → Except EncodeError (List UInt8)} {encodable : α → Prop}
  {read : (input : List UInt8) → Except DecodeError (Parsed α input)}

theorem decode_of_isReadBy (grammar : Grammar)
    (hread : (Format.of encode).IsReadBy read) {x : α}
    {d : List UInt8} (hd : encode x = .ok d) : (do (← read d).finish grammar) = .ok x := by
  have h := hread [] hd
  rw [List.append_nil] at h
  rw [h.finish, if_pos rfl]

theorem Lossless.of_isReadBy (grammar : Grammar)
    (hencode : ∀ x, (∃ bytes, encode x = .ok bytes) ↔ encodable x)
    (hread : (Format.of encode).IsReadBy read) :
    Lossless encode encodable read (fun input => do (← read input).finish grammar) where
  encode_iff := hencode
  read_append _ _ rest hd := hread rest hd
  decode_encode _ _ hd := decode_of_isReadBy grammar hread hd
  injective x y d hx hy := by
    have hx' := decode_of_isReadBy grammar hread hx
    rw [decode_of_isReadBy grammar hread hy] at hx'
    exact (Except.ok.inj hx').symm

/-- A value with `n` more bytes behind it. -/
theorem decode_of_take (grammar : Grammar) (hnil : ∀ x, encode x ≠ .ok [])
    (hread : (Format.of encode).IsReadBy read) {input : List UInt8}
    {n : Nat} {x : α} (hn : 0 < n) (hx : encode x = .ok (input.take (input.length - n))) :
    (do (← read input).finish grammar) = .error (.trailingBytes grammar n) := by
  have hle : n ≤ input.length := by
    refine Nat.le_of_not_lt fun hlt => hnil x ?_
    rwa [Nat.sub_eq_zero_of_le (Nat.le_of_lt hlt), List.take_zero] at hx
  have hlength : (input.drop (input.length - n)).length = n := by
    rw [List.length_drop, Nat.sub_sub_self hle]
  have h := hread (input.drop (input.length - n)) hx
  rw [List.take_append_drop] at h
  rw [h.finish, hlength, if_neg (List.ne_nil_of_length_pos (hlength.symm ▸ hn))]

/-- The four relations exclude each other, so what a decoder says of its input is also what is so. -/
theorem Exact.of_describes (grammar : Grammar) (hnil : ∀ x, encode x ≠ .ok [])
    (hread : (Format.of encode).IsReadBy read)
    (hdescribes : ∀ input, (Format.of encode).Describes (read input)) :
    Exact encode grammar (fun input => do (← read input).finish grammar) := by
  have hdecides := fun input => (hdescribes input).finish grammar
  constructor
  · intro input x
    refine ⟨?_, decode_of_isReadBy grammar hread⟩
    intro h
    have hd := hdecides input
    rwa [h] at hd
  · intro input
    refine ⟨?_, (hdecides input).unexpectedEnd hread.prefixFree⟩
    rintro ⟨expected, h⟩
    have hd := hdecides input
    rwa [h] at hd
  · intro input g n
    constructor
    · intro h
      have hd := hdecides input
      rwa [h] at hd
    · rintro ⟨rfl, hn, x, hx⟩
      exact decode_of_take g hnil hread hn hx
  · intro input
    constructor
    · have hd := hdecides input
      rintro (⟨tag, h⟩ | ⟨g, byte, h⟩) x e he
      · rw [h] at hd
        exact not_or.mp (hd x e he)
      · rw [h] at hd
        exact not_or.mp (hd x e he)
    · intro h
      exact (hdecides input).invalid fun x e he => not_or.mpr (h x e he)

end Decoders

end AddressedF
