import AddressedF.Proofs.Integrity
import AddressedF.Proofs.Safety

/-!
# Termination of Evaluation

The machine stops only when no transition applies, and nothing in its rules makes a state smaller.  That
well-typed terms come to an end all the same is due to the types alone: a type stands for values, and a
function type for functions that come to an end on the values of their domain.

## Main Results

* `Machine.Used.evaluation_terminates`: the evaluation of a well-typed term comes to an end
* `Library.Session.run_evaluate`: a library has an outcome for every term that passes its check

## Design Notes

The run has no bound on its transitions.  A small term may need more of them than a machine word counts, so no
fixed range of bounds is enough for all terms.  What is said of bounds is therefore exact: a bound is enough if it
is greater than the number of transitions, and otherwise the run is cut short.
-/

namespace AddressedF

namespace Machine

variable {sig : Signature} {m : Machine} {t : Term} {T : Ty}

/-- The machine halts on a closed well-typed term, with a value of its type. -/
theorem Used.exists_haltsIn (hm : m.Used sig) (hsig : sig.Checked)
    (ht : sig.typeOf .empty t = .ok T) (fits : sig.nesting + t.nesting ≤ maxIndex) :
    ∃ n m' final, m.HaltsIn n (.initial t.erase) m' final ∧ final.Finished T := by
  obtain ⟨rfl, hfaithful⟩ := hm.faithful
  obtain ⟨final, hsteps, hhalt, hfinished⟩ := hsig.exists_finished ht (.nil T) fits
  obtain ⟨n, m', h⟩ := hfaithful.exists_haltsIn hsteps hhalt
  exact ⟨n, m', final, h, hfinished⟩

/-- The evaluation of a closed well-typed term comes to an end.  Without a bound on its transitions the machine
halts, in a state that is finished with a value of the type of the term.  With a bound it halts likewise if the
bound is greater than the number of transitions that it takes, and is cut short if it is not. -/
theorem Used.evaluation_terminates (hm : m.Used sig) (hsig : sig.Checked)
    (ht : sig.typeOf .empty t = .ok T) (fits : sig.nesting + t.nesting ≤ maxIndex) :
    ∃ final m', m.evaluate none t = some (.ok (.done final), m') ∧ final.Finished T ∧
      ∃ n, ∀ fuel,
        (n < fuel → m.evaluate (some fuel) t = some (.ok (.done final), m')) ∧
        (fuel ≤ n → ∃ cut m'', m.evaluate (some fuel) t = some (.ok (.exhausted cut), m'')) := by
  obtain ⟨n, m', final, h, hfinished⟩ := hm.exists_haltsIn hsig ht fits
  refine ⟨final, m', h.runToEnd_eq, hfinished, n, ?_⟩
  intro fuel
  constructor
  · intro hlt
    exact congrArg some (h.run_of_lt hlt)
  · intro hle
    obtain ⟨cut, m'', hrun⟩ := h.exists_run_of_le hle
    exact ⟨cut, m'', congrArg some hrun⟩

/-- The number five, of an opaque type and built through references, is computed. -/
theorem evaluation_terminates_numeral :
    let address : Address := ⟨.replicate 32 0⟩
    let sig := Numeral.signature address 4
    let t := Numeral.atByte address (.app (Numeral.succ address) (.ref address))
    let T := Ty.arrow .byte (.arrow (.arrow .byte .byte) .byte)
    (sig.Checked ∧ sig.typeOf .empty t = .ok T ∧ sig.nesting + t.nesting ≤ maxIndex) ∧
    ∃ final m', (new sig).evaluate none t = some (.ok (.done final), m') ∧ final.Finished T ∧
      ∃ n, ∀ fuel,
        (n < fuel → (new sig).evaluate (some fuel) t = some (.ok (.done final), m')) ∧
        (fuel ≤ n → ∃ cut m'', (new sig).evaluate (some fuel) t = some (.ok (.exhausted cut), m'')) := by
  intro address sig t T
  have hsig : sig.Checked := Numeral.checked_signature address 4
  have htypes := Numeral.get?_types_signature address 4
  have hnumber : sig.typeOf .empty (.app (Numeral.succ address) (.ref address)) = .ok (.ref address) :=
    Signature.typeOf_app_iff.mpr ⟨_, Numeral.typeOf_succ htypes, Numeral.typeOf_ref address 4⟩
  have ht : sig.typeOf .empty t = .ok T := Numeral.typeOf_atByte htypes hnumber
  have fits : sig.nesting + t.nesting ≤ maxIndex := by decide
  exact ⟨⟨hsig, ht, fits⟩, Used.evaluation_terminates .new hsig ht fits⟩

end Machine

namespace Library

open Stateful

variable {σ : Type} [NameStore σ] {lib lib' : Library σ} {t : Term} {T : Ty}

/-- A term that passes the check of a library has its type over definitions that were all checked. -/
theorem Session.typeOf_of_checkTerm (h : lib.Session) (hrun : (checkTerm t).run lib = (.ok T, lib')) :
    lib'.signature.Checked ∧ lib'.signature.typeOf .empty t = .ok T := by
  have hcheck : (checkDefinition (.term t)).run lib = (.ok (.term ⟨t, T⟩), lib') :=
    checkDefinition_term (σ := σ) t ▸ run_map_eq_ok_iff.mpr ⟨T, hrun, rfl⟩
  have hends := Regime.ends_checkDefinition (R := recording σ) (d := .term t) (fun _ _ _ _ => trivial)
    h.inv_recording
  obtain ⟨hafter, hentry⟩ := hends.of_run_ok hcheck
  obtain ⟨T', hT', heq⟩ := map_eq_ok_iff.mp hentry
  cases heq
  exact ⟨hafter.inv.2, hT'⟩

/-- Without a bound on its transitions, the evaluation of a term that passes the check of a library has an outcome:
the machine has halted with a value of the type of the term. -/
theorem Session.run_evaluate (h : lib.Session) (hrun : (checkTerm t).run lib = (.ok T, lib'))
    (fits : lib'.signature.nesting + t.nesting ≤ maxIndex) :
    ∃ final, (evaluate t none).run lib = (.ok (some (.done final)), lib') ∧ final.Finished T := by
  obtain ⟨hsig, ht⟩ := h.typeOf_of_checkTerm hrun
  obtain ⟨n, m', final, hhalts, hfinished⟩ := Machine.Used.new.exists_haltsIn hsig ht fits
  refine ⟨final, ?_, hfinished⟩
  have heval : (Machine.new lib'.signature).evaluate none t = some (.ok (.done final), m') :=
    hhalts.runToEnd_eq
  have hknown : known.run lib' = (.ok lib'.signature, lib') := rfl
  simp only [evaluate, run_bind, hrun, hknown, heval]
  rfl

end Library

end AddressedF
