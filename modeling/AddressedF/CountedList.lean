/-!
# Lists That Carry Their Length

A list that grows at its front and shares its tail.  Every cell carries the number of entries from there on, so
the length is known without going through the list.

## Main Definitions

* `CountedList`: such lists, and `CountedList.Counted`: those whose cells carry the right number
* `CountedList.push`: a list with one more entry in front
* `CountedList.get?`, `CountedList.find?`: an entry by its position, and the first one with a property

## Main Results

* `CountedList.Counted.get?_eq`: the entries are those of the plain list at their positions
* `CountedList.Counted.toList_inj`: lists with the same entries are the same, and so carry the same numbers
* `CountedList.find?_eq_some_iff`: what is found is the first entry with the property, at its position

## Design Notes

A cell could carry any number, and two lists with the same entries could differ in it.  Lists that are built by
`push` are `Counted`, and of these nothing but the entries can be told apart.
-/

namespace AddressedF

/-- A list whose cells carry the number of entries from there on. -/
inductive CountedList (α : Type) where
  | nil
  | cons (head : α) (tail : CountedList α) (length : Nat)
  deriving DecidableEq

namespace CountedList

variable {α : Type}

/-- The number that the first cell carries. -/
def length : CountedList α → Nat
  | nil => 0
  | cons _ _ n => n

/-- The list with one more entry in front. -/
def push (l : CountedList α) (a : α) : CountedList α :=
  cons a l (l.length + 1)

/-- Whether there are no entries. -/
def isEmpty : CountedList α → Bool
  | nil => true
  | cons _ _ _ => false

/-- The entries, the last one pushed in front. -/
def toList : CountedList α → List α
  | nil => []
  | cons a l _ => a :: l.toList

/-- The entry at a position, if the list is said to be longer. -/
def get? (l : CountedList α) (i : Nat) : Option α :=
  if l.length ≤ i then none else l.toList[i]?

/-- The first entry with a property, and its position. -/
def find? (p : α → Bool) : CountedList α → Option (Nat × α)
  | nil => none
  | cons a l _ => if p a then some (0, a) else (l.find? p).map fun found => (found.1 + 1, found.2)

/-- A list that is built by pushing. -/
inductive Counted : CountedList α → Prop where
  | nil : Counted nil
  | push {l : CountedList α} (a : α) : Counted l → Counted (l.push a)

variable {l l' : CountedList α} {p : α → Bool}

@[simp] theorem toList_nil : (nil : CountedList α).toList = [] := rfl

@[simp] theorem toList_push (l : CountedList α) (a : α) : (l.push a).toList = a :: l.toList := rfl

@[simp] theorem length_push (l : CountedList α) (a : α) : (l.push a).length = l.length + 1 := rfl

theorem isEmpty_eq (l : CountedList α) : l.isEmpty = l.toList.isEmpty := by
  cases l <;> rfl

/-- The number in the first cell is the right one. -/
theorem Counted.length_eq (h : l.Counted) : l.length = l.toList.length := by
  induction h with
  | nil => rfl
  | push a _ ih => rw [length_push, toList_push, List.length_cons, ih]

/-- No entry is lost for its position being past the end. -/
theorem Counted.get?_eq (h : l.Counted) (i : Nat) : l.get? i = l.toList[i]? := by
  rw [get?, h.length_eq]
  split
  · rename_i hle
    exact (List.getElem?_eq_none hle).symm
  · rfl

theorem Counted.toList_inj (h : l.Counted) (h' : l'.Counted) : l.toList = l'.toList ↔ l = l' := by
  refine ⟨fun heq => ?_, congrArg toList⟩
  induction h generalizing l' with
  | nil =>
    cases h' with
    | nil => rfl
    | push => cases heq
  | push a _ ih =>
    cases h' with
    | nil => cases heq
    | push a' h' =>
      obtain ⟨rfl, htail⟩ := List.cons.inj heq
      rw [ih h' htail]

/-- What is found has the property and stands at its position, and nothing before it has the property. -/
theorem find?_eq_some_iff {i : Nat} {a : α} :
    l.find? p = some (i, a) ↔
      l.toList[i]? = some a ∧ p a = true ∧ ∀ j < i, ∀ b, l.toList[j]? = some b → p b = false := by
  induction l generalizing i with
  | nil => simp [find?]
  | cons b l n ih =>
    rw [find?, toList]
    cases i with
    | zero =>
      split
      · rename_i hb
        constructor
        · intro h
          cases h
          exact ⟨rfl, hb, fun _ hj => absurd hj (Nat.not_lt_zero _)⟩
        · rintro ⟨h, -⟩
          cases h
          rfl
      · rename_i hb
        constructor
        · intro h
          obtain ⟨found, -, heq⟩ := Option.map_eq_some_iff.mp h
          cases heq
        · rintro ⟨h, ha, -⟩
          cases h
          exact absurd ha hb
    | succ i =>
      -- the first entry comes before the position, so it must not have the property
      rw [Nat.forall_lt_succ_left]
      simp only [List.getElem?_cons_zero, List.getElem?_cons_succ, Option.some.injEq, forall_eq']
      split
      · rename_i hb
        constructor
        · intro h
          cases h
        · rintro ⟨-, -, hfirst, -⟩
          rw [hb] at hfirst
          cases hfirst
      · rename_i hb
        rw [Option.map_eq_some_iff]
        constructor
        · rintro ⟨⟨j, c⟩, hfound, heq⟩
          cases heq
          obtain ⟨hi, ha, hbefore⟩ := ih.mp hfound
          exact ⟨hi, ha, Bool.eq_false_iff.mpr hb, hbefore⟩
        · rintro ⟨hi, ha, -, hbefore⟩
          exact ⟨(i, a), ih.mpr ⟨hi, ha, hbefore⟩, rfl⟩

end CountedList

end AddressedF
