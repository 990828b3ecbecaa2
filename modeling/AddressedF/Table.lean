/-!
# Tables

Finite maps, as lists of entries with one entry for a key.

## Main Definitions

* `Table`: finite maps
* `Table.get?`: the value under a key
* `Table.insertIfNew`, `Table.insert`, `Table.erase`: the three ways of changing a table

## Design Notes

A table is seen through `get?`, and each operation has an equation for it.  That keys are not repeated is
part of the type, so the number of entries is the number of keys.
-/

namespace AddressedF

/-- A finite map from keys to values. -/
structure Table (κ : Type) (α : Type) where
  entries : List (κ × α)
  /-- No key has two entries. -/
  nodup : (entries.map Prod.fst).Nodup

namespace Table

variable {κ α β : Type}

/-- The table without entries. -/
def empty : Table κ α := ⟨[], List.nodup_nil⟩

instance : Inhabited (Table κ α) := ⟨empty⟩

/-- The keys of a table. -/
def keys (t : Table κ α) : List κ := t.entries.map Prod.fst

/-- The number of keys. -/
def size (t : Table κ α) : Nat := t.entries.length

variable [DecidableEq κ]

/-- The value under a key. -/
def get? (t : Table κ α) (k : κ) : Option α := t.entries.lookup k

/-- Whether a key has a value. -/
def contains (t : Table κ α) (k : κ) : Bool := (t.get? k).isSome

theorem get?_eq_none_iff {t : Table κ α} {k : κ} : t.get? k = none ↔ k ∉ t.keys := by
  simp only [get?, List.lookup_eq_none_iff, keys, List.mem_map, not_exists, not_and]
  constructor
  · intro h p hp hk
    exact absurd (h p hp) (by simp [hk])
  · intro h p hp
    simpa using fun hk => h p hp hk.symm

/-- Drops the entry of a key. -/
def erase (t : Table κ α) (k : κ) : Table κ α :=
  ⟨t.entries.filter fun p => p.1 ≠ k, t.nodup.sublist (List.filter_sublist.map _)⟩

/-- Gives a key a value in place of the one it had. -/
def insert (t : Table κ α) (k : κ) (v : α) : Table κ α :=
  ⟨(k, v) :: (t.erase k).entries, by
    refine List.nodup_cons.mpr ⟨?_, (t.erase k).nodup⟩
    simp [erase]⟩

/-- Gives a key a value if it has none. -/
def insertIfNew (t : Table κ α) (k : κ) (v : α) : Table κ α :=
  if h : t.get? k = none then
    ⟨(k, v) :: t.entries, List.nodup_cons.mpr ⟨get?_eq_none_iff.mp h, t.nodup⟩⟩
  else t

theorem lookup_cons_eq (k k' : κ) (v : α) (entries : List (κ × α)) :
    ((k, v) :: entries).lookup k' = if k' = k then some v else entries.lookup k' := by
  by_cases h : k' = k
  · simp [h]
  · simp [List.lookup_cons, h, beq_eq_false_iff_ne.mpr h]

theorem get?_erase (t : Table κ α) (k k' : κ) :
    (t.erase k).get? k' = if k' = k then none else t.get? k' := by
  obtain ⟨entries, nodup⟩ := t
  simp only [get?, erase]
  clear nodup
  induction entries with
  | nil => simp
  | cons p ps ih =>
    obtain ⟨k₀, v₀⟩ := p
    rw [lookup_cons_eq, List.filter_cons]
    by_cases h : k₀ = k
    · subst h
      rw [if_neg (by simp), ih]
      by_cases h' : k' = k₀ <;> simp [h']
    · by_cases h' : k' = k₀
      · subst h'; simp [h]
      · simp only [ne_eq, h, not_false_eq_true, decide_true, if_true, lookup_cons_eq, h', if_false]
        simpa using ih

theorem get?_insert (t : Table κ α) (k k' : κ) (v : α) :
    (t.insert k v).get? k' = if k' = k then some v else t.get? k' := by
  have h := get?_erase t k k'
  simp only [get?, insert, lookup_cons_eq] at h ⊢
  by_cases hk : k' = k <;> simp_all

theorem get?_insertIfNew (t : Table κ α) (k k' : κ) (v : α) :
    (t.insertIfNew k v).get? k' = if k' = k then some ((t.get? k).getD v) else t.get? k' := by
  unfold insertIfNew
  split
  · rename_i h
    rw [h]
    simp only [get?, lookup_cons_eq, Option.getD_none]
  · rename_i h
    by_cases hk : k' = k
    · subst hk
      obtain ⟨w, hw⟩ := Option.ne_none_iff_exists'.mp h
      simp [hw]
    · simp [hk]

/-- A value once given is kept. -/
theorem get?_insertIfNew_of_some {t : Table κ α} {k k' : κ} {v w : α} (h : t.get? k' = some w) :
    (t.insertIfNew k v).get? k' = some w := by
  rw [get?_insertIfNew]
  split
  · rename_i hk; subst hk; simp [h]
  · exact h

end Table

end AddressedF
