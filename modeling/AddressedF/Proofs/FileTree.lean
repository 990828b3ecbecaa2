import AddressedF.Proofs.Except
import AddressedF.Storage.FileTree

/-!
# Files of a Directory

What the operations on file trees do to the files of one directory.

## Main Definitions

* `FileTree.IsDirectory`: a path leads to a directory, and components of any length may be looked up in it

## Main Results

* `FileTree.IsDirectory.find_entry`: an entry of a directory is found where it is stored
* `FileTree.IsDirectory.read?_entry`, `FileTree.IsDirectory.remove_entry`: files are read and removed
* `FileTree.IsDirectory.replace_entry`: a file that is written under a free name and renamed is the only change

## Design Notes

An operation walks down its path, but only the last component matters once the others are known to lead to a
directory.  Directories stay where they are as long as nothing is stored at their paths.
-/

namespace AddressedF.FileTree

variable {t t' : FileTree} {base dir : Path} {name temporary : String} {content : List UInt8}

/-- A path leads to a directory, in a tree without a limit on components. -/
structure IsDirectory (t : FileTree) (dir : Path) : Prop where
  unlimited : t.limit = none
  find : t.find dir = .ok .directory

theorem isTooLong_of_unlimited (h : t.limit = none) (component : String) : t.isTooLong component = false := by
  simp [isTooLong, h]

theorem findFrom_cons_eq_directory {c : String} {rest : Path}
    (h : t.findFrom base (c :: rest) = .ok .directory) :
    t.isTooLong c = false ∧ t.nodes.get? (base ++ [c]) = some .directory ∧
      t.findFrom (base ++ [c]) rest = .ok .directory := by
  rw [findFrom] at h
  split at h
  · cases h
  · rename_i hlong
    split at h
    · cases h
    · rename_i hnode
      exact ⟨Bool.eq_false_iff.mpr hlong, hnode, h⟩
    · split at h <;> cases h

/-- Once a path has led to a directory, the rest is looked up from there. -/
theorem findFrom_append (h : t.findFrom base dir = .ok .directory) (rest : Path) :
    t.findFrom base (dir ++ rest) = t.findFrom (base ++ dir) rest := by
  induction dir generalizing base with
  | nil => simp
  | cons c dir ih =>
    obtain ⟨hlong, hnode, h⟩ := findFrom_cons_eq_directory h
    rw [List.cons_append, findFrom, hlong, hnode]
    simpa using ih h

/-- Directories are where they were, if none of the paths on the way has changed. -/
theorem findFrom_of_directories (hlimit : t'.limit = none)
    (hnodes : ∀ p, t.nodes.get? p = some .directory → t'.nodes.get? p = some .directory)
    (h : t.findFrom base dir = .ok .directory) : t'.findFrom base dir = .ok .directory := by
  induction dir generalizing base with
  | nil => rfl
  | cons c dir ih =>
    obtain ⟨-, hnode, h⟩ := findFrom_cons_eq_directory h
    rw [findFrom, isTooLong_of_unlimited hlimit, hnodes _ hnode]
    exact ih h

namespace IsDirectory

/-- A change at a path where there is no directory leaves all directories in place. -/
theorem change_at {other : Path} (h : t.IsDirectory dir) (hlimit : t'.limit = none)
    (hfree : t.nodes.get? other ≠ some .directory)
    (hnodes : ∀ p ≠ other, t'.nodes.get? p = t.nodes.get? p) : t'.IsDirectory dir := by
  refine ⟨hlimit, findFrom_of_directories hlimit ?_ h.find⟩
  intro p hp
  have hne : p ≠ other := fun heq => hfree (heq ▸ hp)
  rw [hnodes p hne, hp]

/-- An entry of a directory is found where it is stored. -/
theorem find_entry (h : t.IsDirectory dir) (name : String) :
    t.find (dir ++ [name]) =
      match t.nodes.get? (dir ++ [name]) with
      | none => .error .notFound
      | some node => .ok node := by
  rw [FileTree.find, findFrom_append h.find, List.nil_append, findFrom, isTooLong_of_unlimited h.unlimited]
  cases t.nodes.get? (dir ++ [name]) with
  | none => rfl
  | some node => cases node <;> rfl

theorem hasNode_entry (h : t.IsDirectory dir) (name : String) :
    t.hasNode (dir ++ [name]) = (t.nodes.get? (dir ++ [name])).isSome := by
  rw [hasNode, h.find_entry]
  cases t.nodes.get? (dir ++ [name]) <;> rfl

theorem read_entry (h : t.IsDirectory dir) (hfile : t.nodes.get? (dir ++ [name]) = some (.file content)) :
    t.read (dir ++ [name]) = .ok content := by
  rw [FileTree.read, h.find_entry, hfile]

theorem read_missing (h : t.IsDirectory dir) (hfile : t.nodes.get? (dir ++ [name]) = none) :
    t.read (dir ++ [name]) = .error .notFound := by
  rw [FileTree.read, h.find_entry, hfile]

/-- What a directory has under a name is read, be it a file or nothing. -/
theorem read?_entry (h : t.IsDirectory dir) {content? : Option (List UInt8)}
    (hfile : t.nodes.get? (dir ++ [name]) = content?.map .file) : t.read? (dir ++ [name]) = .ok content? := by
  rw [FileTree.read?]
  cases content? with
  | none => rw [h.read_missing hfile]
  | some content => rw [h.read_entry hfile]

theorem remove_missing (h : t.IsDirectory dir) (hfile : t.nodes.get? (dir ++ [name]) = none) :
    t.remove (dir ++ [name]) = .error .notFound := by
  rw [FileTree.remove, h.read_missing hfile]
  rfl

theorem remove_entry (h : t.IsDirectory dir) (hfile : t.nodes.get? (dir ++ [name]) = some (.file content)) :
    t.remove (dir ++ [name]) = .ok { t with nodes := t.nodes.erase (dir ++ [name]) } := by
  rw [FileTree.remove, h.read_entry hfile]
  rfl

theorem write_entry (h : t.IsDirectory dir) (hfree : t.nodes.get? (dir ++ [name]) ≠ some .directory)
    (content : List UInt8) :
    t.write dir name content = .ok { t with nodes := t.nodes.insert (dir ++ [name]) (.file content) } := by
  rw [FileTree.write, checkDirectory, h.find, h.find_entry]
  cases hnode : t.nodes.get? (dir ++ [name]) with
  | none => rfl
  | some node =>
    cases node with
    | file old => rfl
    | directory => exact absurd hnode hfree

theorem rename_entry (h : t.IsDirectory dir) (hne : temporary ≠ name)
    (hfile : t.nodes.get? (dir ++ [temporary]) = some (.file content))
    (hname : t.nodes.get? (dir ++ [name]) ≠ some .directory) :
    t.rename dir temporary name =
      .ok { t with nodes := (t.nodes.insert (dir ++ [name]) (.file content)).erase (dir ++ [temporary]) } := by
  have hwrite := h.write_entry hname content
  exact bind_eq_ok_iff.mpr ⟨content, h.read_entry hfile, bind_eq_ok_iff.mpr ⟨_, hwrite, if_neg hne⟩⟩

theorem insert_file {other : Path} (h : t.IsDirectory dir) (hfree : t.nodes.get? other ≠ some .directory)
    (content : List UInt8) : { t with nodes := t.nodes.insert other (.file content) }.IsDirectory dir :=
  h.change_at h.unlimited hfree fun p hp => by rw [Table.get?_insert, if_neg hp]

theorem erase_file {other : Path} (h : t.IsDirectory dir) (hfree : t.nodes.get? other ≠ some .directory) :
    { t with nodes := t.nodes.erase other }.IsDirectory dir :=
  h.change_at h.unlimited hfree fun p hp => by rw [Table.get?_erase, if_neg hp]

/-- Writing a file under a free name and giving it its name in the end changes nothing but what is under that
name. -/
theorem replace_entry (h : t.IsDirectory dir) (htemporary : t.nodes.get? (dir ++ [temporary]) = none)
    (hname : t.nodes.get? (dir ++ [name]) ≠ some .directory) (hne : temporary ≠ name) (content : List UInt8) :
    ∃ t₁ t₂, t.write dir temporary content = .ok t₁ ∧ t₁.rename dir temporary name = .ok t₂ ∧
      t₂.limit = none ∧
      ∀ p, t₂.nodes.get? p = if p = dir ++ [name] then some (.file content) else t.nodes.get? p := by
  have hfree : t.nodes.get? (dir ++ [temporary]) ≠ some .directory := by simp [htemporary]
  have hpath : dir ++ [name] ≠ dir ++ [temporary] := by simpa using Ne.symm hne
  have h₁ := h.insert_file hfree content
  have hfile := Table.get?_insert t.nodes (dir ++ [temporary]) (dir ++ [temporary]) (.file content)
  rw [if_pos rfl] at hfile
  have hname₁ := Table.get?_insert t.nodes (dir ++ [temporary]) (dir ++ [name]) (.file content)
  rw [if_neg hpath] at hname₁
  refine ⟨_, _, h.write_entry hfree content, h₁.rename_entry hne hfile (by rwa [hname₁]), h.unlimited, ?_⟩
  intro p
  rw [Table.get?_erase, Table.get?_insert, Table.get?_insert]
  by_cases hp : p = dir ++ [temporary]
  · rw [if_pos hp, hp, if_neg hpath.symm, htemporary]
  · rw [if_neg hp, if_neg hp]

end IsDirectory

end AddressedF.FileTree
