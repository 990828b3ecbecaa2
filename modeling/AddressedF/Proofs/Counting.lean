import AddressedF.Proofs.BigStep
import AddressedF.Proofs.Fuel

/-!
# Numerals Count

A number of the opaque type applies a function so many times.  With the successor function and the byte zero this
counts, up to the last byte and from there on from zero again.  The opaque type does not get in the way: its two
sides are erased to the identity, wherever a number is taken apart to build the next one.

## Main Definitions

* `Signature.Applies`: what a function value makes of an argument
* `Numeral.value`: the value of a number

## Main Results

* `Numeral.bigStep_ofNat`: the term of a number has that value
* `Numeral.exists_applies_value`: the value of a number, applied to a start and a function
* `Numeral.numerals_count`: the types of numbers, and the byte that the machine computes

## Design Notes

The value of a number is a function body that was closed over the value of the number before it, so values nest as
deep as the number is large.  That one value applies a function so many times is shown for any function and any
start, by induction on the number.
-/

namespace AddressedF

namespace Signature

/-- A function value makes a value of its argument. -/
inductive Applies (sig : Signature) : Value → Value → Value → Prop where
  | closure {body : Erased} {env : List Value} {w v : Value} :
    sig.BigStep body (w :: env) v → Applies sig (.closure body env) w v
  | succ (b : UInt8) : Applies sig .succ (.byte b) (.byte (b + 1))

variable {sig : Signature} {f a : Erased} {env : List Value} {g w v : Value}

theorem BigStep.apply (hf : sig.BigStep f env g) (ha : sig.BigStep a env w) (h : sig.Applies g w v) :
    sig.BigStep (.app f a) env v := by
  cases h with
  | closure hbody => exact .app hf ha hbody
  | succ b => exact .appSucc hf ha

/-- Both sides of an opaque type leave values as they are. -/
theorem applies_identity (env : List Value) (v : Value) : sig.Applies (.closure (.var 0) env) v v :=
  .closure (.var rfl)

end Signature

/-- A byte that is delivered where nothing is left to do is the result. -/
theorem State.Delivers.value?_eq {s : State} {b : UInt8} (h : s.Delivers [] (.byte b)) : s.value? = some b := by
  obtain ⟨term, env, stack⟩ := s
  obtain ⟨rfl, hv⟩ := h
  cases term with
  | byte =>
    cases hv
    rfl
  | succ | lam => cases hv
  | zero | ref | var | app => cases hv

/-- Without a bound on its transitions, the machine halts with the value that a term has. -/
theorem Machine.Faithful.exists_runToEnd {m : Machine} {e : Erased} {env : List Value} {v : Value}
    (hm : m.Faithful) (h : m.signature.BigStep e env v) :
    ∃ final m', m.runToEnd ⟨e, env, []⟩ = .some (.ok (.done final), m') ∧ final.Delivers [] v := by
  obtain ⟨final, hsteps, hfinal⟩ := h.exists_steps []
  obtain ⟨n, m', hhalts⟩ := hm.exists_haltsIn hsteps (Signature.next_of_delivers_nil hfinal)
  exact ⟨final, m', hhalts.runToEnd_eq, hfinal⟩

namespace Numeral

open Signature (Applies BigStep)

/-! ## Values of numbers -/

/-- The value of a number.  A number after zero remembers the one before it. -/
def value : Nat → Value
  | 0 => .closure (.lam (.var 1)) []
  | n + 1 =>
    .closure (.lam (.app (.var 0) (.app (.app (.app .identity (.var 2)) (.var 1)) (.var 0)))) [value n]

variable {sig : Signature} {m : Machine} {address : Address}

theorem bigStep_ofNat (address : Address) (n : Nat) : sig.BigStep (ofNat address n).erase [] (value n) := by
  induction n with
  | zero => exact .apply .lam .lam (Signature.applies_identity [] _)
  | succ n ih => exact .apply .lam ih (.closure (.apply .lam .lam (Signature.applies_identity _ _)))

/-- The value of a number takes a start and a function, and applies the function so many times to the start. -/
theorem exists_applies_value {f : Value} {values : Nat → Value}
    (hf : ∀ i, sig.Applies f (values i) (values (i + 1))) (n : Nat) :
    ∃ g, sig.Applies (value n) (values 0) g ∧ sig.Applies g f (values n) := by
  induction n with
  | zero => exact ⟨_, .closure .lam, .closure (.var rfl)⟩
  | succ n ih =>
    obtain ⟨g, hg, hvalue⟩ := ih
    refine ⟨_, .closure .lam, .closure ?_⟩
    -- the number before is taken out of its environment, and then out of the opaque type
    have hn : sig.BigStep (.app .identity (.var 2)) [f, values 0, value n] (value n) :=
      .apply .lam (.var rfl) (Signature.applies_identity _ _)
    exact .apply (.var rfl) (.apply (.apply hn (.var rfl) hg) (.var rfl) hvalue) (hf n)

/-- A number that is used on bytes, with the byte zero and the successor function, is the byte of the number. -/
theorem bigStep_atByte (address : Address) (n : Nat) :
    sig.BigStep ((atByte address (ofNat address n)).erase.apply [.zero, .succ]) [] (.byte (UInt8.ofNat n)) := by
  have hsucc : ∀ i, sig.Applies .succ (.byte (UInt8.ofNat i)) (.byte (UInt8.ofNat (i + 1))) := by
    intro i
    rw [UInt8.ofNat_add]
    exact .succ _
  obtain ⟨g, hg, hvalue⟩ := exists_applies_value hsucc n
  have hn : sig.BigStep (.app .identity (ofNat address n).erase) [] (value n) :=
    .apply .lam (bigStep_ofNat address n) (Signature.applies_identity _ _)
  exact .apply (.apply hn .zero hg) .succ hvalue

/-- The numbers count, over any signature that has their definition.  Each number has the opaque type; for bytes it
takes a start and a function on bytes; and with the byte zero and the successor function, the machine halts with
the remainder of the number by the number of bytes. -/
theorem numerals_count (h : sig.types.get? address = some ⟨definition, .star⟩) (hm : m.Used sig) (n : Nat) :
    sig.typeOf .empty (ofNat address n) = .ok (.ref address) ∧
    sig.typeOf .empty (atByte address (ofNat address n)) =
      .ok (.arrow .byte (.arrow (.arrow .byte .byte) .byte)) ∧
    ∃ final m' b,
      m.runToEnd (.initial ((atByte address (ofNat address n)).erase.apply [.zero, .succ])) =
        .some (.ok (.done final), m') ∧
      final.value? = some b ∧ b.toNat = n % 256 := by
  have hofNat := typeOf_ofNat h n
  obtain ⟨-, hfaithful⟩ := hm.faithful
  obtain ⟨final, m', hrun, hfinal⟩ := hfaithful.exists_runToEnd (bigStep_atByte address n)
  exact ⟨hofNat, typeOf_atByte h hofNat, final, m', _, hrun, hfinal.value?_eq, UInt8.toNat_ofNat'⟩

/-- The successor function is applied three hundred times and passes the last byte. -/
theorem numerals_count_past_last :
    let address : Address := ⟨.replicate 32 0⟩
    let sig := signature address 2
    let t := atByte address (ofNat address 300)
    (sig.types.get? address = some ⟨definition, .star⟩ ∧ (Machine.new sig).Used sig) ∧
    sig.typeOf .empty (ofNat address 300) = .ok (.ref address) ∧
    sig.typeOf .empty t = .ok (.arrow .byte (.arrow (.arrow .byte .byte) .byte)) ∧
    ∃ final m' b,
      (Machine.new sig).runToEnd (.initial (t.erase.apply [.zero, .succ])) = .some (.ok (.done final), m') ∧
      final.value? = some b ∧ b.toNat = 44 := by
  intro address sig t
  have h : sig.types.get? address = some ⟨definition, .star⟩ := get?_types_signature address 2
  exact ⟨⟨h, .new⟩, numerals_count h .new 300⟩

end Numeral

end AddressedF
