import AddressedF.Proofs.FileTree
import AddressedF.Proofs.Hexadecimal
import AddressedF.Storage.Directory
import AddressedF.Storage.Memory
import Mathlib.Data.List.TakeWhile

/-!
# Directories Mirror Memory

A store in a directory answers every sequence of calls as a store in memory does, as long as no temporary file
gets into the way of a name that is bound.

## Main Definitions

* `StoreCall`, `StoreCall.answers`: what is asked of a store, and what it answers
* `DirectoryStore.Separates`: names whose temporary files are in nobody's way
* `DirectoryStore.Mirrors`: a directory that holds what a store in memory holds

## Main Results

* `DirectoryStore.Mirrors.perform`: what one call does to a directory and to the store in memory it mirrors
* `StoreCall.answers_directory`: all answers of a new store in a directory are those of a new store in memory
* `StoreCall.answers_in_the_way`: names that the two kinds of stores treat differently

## Design Notes

A temporary file is gone when a call ends, so between calls a directory has no other files than those of the
store in memory.  During a call it is there, in the directory of the names, and its name is made from the bound
one: a name may lack a temporary name, and the temporary name of one name may be another that is bound.
-/

namespace AddressedF

theorem isValidName_of_checkName {name : String} {u : Unit} (h : checkName name = .ok u) :
    isValidName name = true := by
  by_contra hname
  rw [checkName, if_neg hname] at h
  cases h

theorem Table.erase_eq_self {κ α : Type} [DecidableEq κ] {t : Table κ α} {k : κ} (h : t.get? k = none) :
    t.erase k = t := by
  have hentries : (t.entries.filter fun p => p.1 ≠ k) = t.entries := by
    rw [List.filter_eq_self]
    intro p hp
    have hk := Table.get?_eq_none_iff.mp h
    simpa using fun heq : p.1 = k => hk (heq ▸ List.mem_map_of_mem hp)
  unfold Table.erase
  simp only [hentries]

/-! ## Calls -/

/-- What is asked of a store. -/
inductive StoreCall where
  | get (space : Space) (a : Address)
  | put (space : Space) (a : Address) (bytes : List UInt8)
  | lookup (space : Space) (name : String)
  | bind (space : Space) (name : String) (a : Address) (update : Bool)
  | unbind (space : Space) (name : String)

namespace StoreCall

/-- What a store answers. -/
inductive Answer where
  | bytes (content : Option (List UInt8))
  | address (a : Option Address)
  | flag (value : Bool)
  deriving DecidableEq

variable {σ : Type} [NameStore σ]

/-- Calls a store. -/
def perform : StoreCall → StoreM σ Answer
  | get space a => .bytes <$> BlobStore.get space a
  | put space a bytes => .flag <$> BlobStore.put space a bytes
  | lookup space name => .address <$> NameStore.lookup space name
  | bind space name a update => .flag <$> NameStore.bind space name a update
  | unbind space name => .flag <$> NameStore.unbind space name

/-- The answers to a sequence of calls.  A call that fails is followed by the next. -/
def answers (s : σ) : List StoreCall → List (Except StoreError Answer)
  | [] => []
  | call :: calls => (call.perform.run s).1 :: answers (call.perform.run s).2 calls

/-- The names that may be bound and that a sequence of calls asks to bind. -/
def boundNames (calls : List StoreCall) : List (Space × String) :=
  calls.filterMap fun
    | bind space name _ _ => if isValidName name then some (space, name) else none
    | _ => none

theorem boundNames_cons (call : StoreCall) (calls : List StoreCall) :
    boundNames (call :: calls) = boundNames [call] ++ boundNames calls :=
  List.filterMap_append (l := [call])

end StoreCall

/-! ## Temporary names -/

namespace DirectoryStore

open Stateful StoreCall

variable {s s' : DirectoryStore} {m : MemoryStore} {names : List (Space × String)} {dir : Path}
  {name temporary : String} {content : List UInt8}

/-- All names can be written, now and later, and no temporary name is one of them. -/
def Separates (s : DirectoryStore) (names : List (Space × String)) : Prop :=
  ∀ p ∈ names, ∀ writes ≥ s.writes,
    ∃ temporary, { s with writes }.temporaryName? p.2 = some temporary ∧ (p.1, temporary) ∉ names

theorem Separates.later (h : s.Separates names) (hprocess : s'.process = s.process)
    (hwrites : s.writes ≤ s'.writes) : s'.Separates names := by
  intro p hp writes hle
  obtain ⟨temporary, htemporary, hnot⟩ := h p hp writes (Nat.le_trans hwrites hle)
  refine ⟨temporary, ?_, hnot⟩
  simpa [temporaryName?, hprocess] using htemporary

theorem temporaryName?_eq_some (h : withoutExtension name ≠ ".") :
    s.temporaryName? name = some s!"{withoutExtension name}.tmp.{s.process}.{s.writes}" :=
  if_neg h

theorem withoutExtension_eq_self (h : '.' ∉ name.toList) : withoutExtension name = name := by
  have hno : name.toList.reverse.dropWhile (· ≠ '.') = [] := by
    rw [List.dropWhile_eq_nil_iff]
    intro c hc
    simpa using fun hdot : c = '.' => h (hdot ▸ List.mem_reverse.mp hc)
  show (if (name.toList.reverse.dropWhile (· ≠ '.')).drop 1 = [] then name else _) = name
  rw [hno]
  rfl

/-- A temporary name has three dots at least. -/
theorem three_le_count_dot (h : s.temporaryName? name = some temporary) :
    3 ≤ temporary.toList.count '.' := by
  unfold temporaryName? at h
  split at h
  · cases h
  · cases h
    have hinfix : ".tmp.".toList.count '.' = 2 := by decide
    have hdot : ".".toList.count '.' = 1 := by decide
    have htoString : ∀ text : String, toString text = text := fun _ => rfl
    simp only [String.toList_append, List.count_append, htoString, hinfix, hdot]
    omega

/-- Names with fewer than three dots do not get into the way of each other. -/
theorem separates_of_count_dot (h : ∀ p ∈ names, withoutExtension p.2 ≠ "." ∧ p.2.toList.count '.' < 3) :
    s.Separates names := by
  intro p hp writes _
  have htemporary := temporaryName?_eq_some (s := { s with writes }) (h p hp).1
  refine ⟨_, htemporary, fun hmem => ?_⟩
  exact absurd (three_le_count_dot htemporary) (Nat.not_le.mpr (h _ hmem).2)

/-! ## Writing -/

/-- A write leaves a file with the content at the path, and changes no other path. -/
structure Wrote (s : DirectoryStore) (path : Path) (content : List UInt8) (s' : DirectoryStore) : Prop where
  process : s'.process = s.process
  writes : s'.writes = s.writes + 1
  unlimited : s'.tree.limit = none
  nodes : ∀ p, s'.tree.nodes.get? p = if p = path then some (.file content) else s.tree.nodes.get? p

theorem run_changeTree {f : FileTree → Except FileError FileTree} {t : FileTree} (h : f s.tree = .ok t) :
    (changeTree f).run s = (.ok (), { s with tree := t }) := by
  simp only [ExceptT.run, changeTree, h]

theorem run_readFile {path : Path} {content? : Option (List UInt8)} (h : s.tree.read? path = .ok content?) :
    (readTree (·.read? path)).run s = (.ok content?, s) := by
  simp only [ExceptT.run, readTree, h, Except.mapError]

theorem run_writeFile (hdir : s.tree.IsDirectory dir) (htemporary : s.temporaryName? name = some temporary)
    (hfree : s.tree.nodes.get? (dir ++ [temporary]) = none)
    (hname : s.tree.nodes.get? (dir ++ [name]) ≠ some .directory) (hne : temporary ≠ name)
    (content : List UInt8) :
    ∃ s', (writeFile dir name content).run s = (.ok (), s') ∧ s.Wrote (dir ++ [name]) content s' := by
  obtain ⟨t₁, t₂, hwrite, hrename, hlimit, hnodes⟩ := hdir.replace_entry hfree hname hne content
  refine ⟨{ tree := t₂, process := s.process, writes := s.writes + 1 }, ?_, ⟨rfl, rfl, hlimit, hnodes⟩⟩
  have hsecond : (changeTree (·.rename dir temporary name)).run { s with writes := s.writes + 1, tree := t₁ } =
      (.ok (), { tree := t₂, process := s.process, writes := s.writes + 1 }) := run_changeTree hrename
  simp only [writeFile, run_bind, run_get, run_modify, htemporary]
  rw [run_changeTree hwrite]
  exact hsecond

theorem Wrote.isDirectory {path : Path} (h : s.Wrote path content s') (hdir : s.tree.IsDirectory dir)
    (hpath : s.tree.nodes.get? path ≠ some .directory) : s'.tree.IsDirectory dir :=
  hdir.change_at h.unlimited hpath fun p hp => by rw [h.nodes, if_neg hp]

/-! ## Paths of a store -/

theorem blobPath_eq_iff {space space' : Space} {file file' : String} :
    blobDirectory space ++ [file] = blobDirectory space' ++ [file'] ↔ (space, file) = (space', file') := by
  cases space <;> cases space' <;> simp [blobDirectory, Space.directory]

theorem namePath_eq_iff {space space' : Space} {file file' : String} :
    nameDirectory space ++ [file] = nameDirectory space' ++ [file'] ↔ (space, file) = (space', file') := by
  cases space <;> cases space' <;> simp [nameDirectory, Space.directory]

theorem blobPath_ne_namePath {space space' : Space} {file file' : String} :
    blobDirectory space ++ [file] ≠ nameDirectory space' ++ [file'] := by
  simp [blobDirectory, nameDirectory]

/-- An address is read from the file of a binding. -/
theorem readAddress_hex (a : Address) : readAddress (Text.encodeUtf8 a.hex) = .ok a := by
  have hblank : ∀ c ∈ hexOfBytes a.toList, Text.isBlank c = false := by
    intro c hc
    obtain ⟨n, hn, rfl⟩ := exists_of_mem_hexOfBytes hc
    exact isBlank_hexDigit hn
  have htext : Text.trim (Text.decodeUtf8 (Text.encodeUtf8 a.hex)) = hexOfBytes a.toList := by
    rw [Address.hex, Text.decodeUtf8_encodeUtf8_of_ascii a.ascii_hex, Text.trim_eq_self hblank]
  rw [readAddress, htext, ← Address.hex, Address.ofHex_hex]
  rfl

/-- A byte string has a temporary name, which is the written form of no address. -/
theorem exists_temporaryName?_hex (s : DirectoryStore) (a : Address) :
    ∃ temporary, s.temporaryName? a.hex = some temporary ∧ ∀ b : Address, b.hex ≠ temporary := by
  have hself := withoutExtension_eq_self a.dot_notMem_hex
  have hne : withoutExtension a.hex ≠ "." := by
    rw [hself]
    intro hdot
    exact a.dot_notMem_hex (by simp [hdot])
  refine ⟨_, temporaryName?_eq_some hne, fun b hb => ?_⟩
  have hthree := three_le_count_dot (temporaryName?_eq_some (s := s) hne)
  rw [← hb, List.count_eq_zero.mpr b.dot_notMem_hex] at hthree
  omega

/-! ## Mirroring -/

/-- A directory holds what a store in memory holds, and only names that can be written side by side are bound. -/
structure Mirrors (names : List (Space × String)) (s : DirectoryStore) (m : MemoryStore) : Prop where
  blobDirectory : ∀ space, s.tree.IsDirectory (blobDirectory space)
  nameDirectory : ∀ space, s.tree.IsDirectory (nameDirectory space)
  blob : ∀ space a, s.tree.nodes.get? (DirectoryStore.blobDirectory space ++ [a.hex]) =
    (m.blobs.get? (space, a)).map .file
  /-- No other file is there beside the byte strings. -/
  tidy : ∀ space file, (∀ a : Address, a.hex ≠ file) →
    s.tree.nodes.get? (DirectoryStore.blobDirectory space ++ [file]) = none
  name : ∀ space name, s.tree.nodes.get? (DirectoryStore.nameDirectory space ++ [name]) =
    (m.names.get? (space, name)).map fun a => .file (Text.encodeUtf8 a.hex)
  bound : ∀ space name, (m.names.get? (space, name)).isSome → (space, name) ∈ names
  separate : s.Separates names

namespace Mirrors

variable {space : Space} {a : Address} {bytes : List UInt8}

theorem blob_ne_directory (h : Mirrors names s m) (space : Space) (a : Address) :
    s.tree.nodes.get? (DirectoryStore.blobDirectory space ++ [a.hex]) ≠ some .directory := by
  rw [h.blob]
  cases m.blobs.get? (space, a) <;> simp

theorem name_ne_directory (h : Mirrors names s m) (space : Space) (name : String) :
    s.tree.nodes.get? (DirectoryStore.nameDirectory space ++ [name]) ≠ some .directory := by
  rw [h.name]
  cases m.names.get? (space, name) <;> simp

/-! What a change of the directory is a change of in memory. -/

theorem wrote_blob (h : Mirrors names s m)
    (hwrote : s.Wrote (DirectoryStore.blobDirectory space ++ [a.hex]) bytes s') :
    Mirrors names s' { m with blobs := m.blobs.insert (space, a) bytes } where
  blobDirectory other := hwrote.isDirectory (h.blobDirectory other) (h.blob_ne_directory space a)
  nameDirectory other := hwrote.isDirectory (h.nameDirectory other) (h.blob_ne_directory space a)
  blob other b := by
    rw [hwrote.nodes, h.blob, Table.get?_insert]
    simp only [blobPath_eq_iff, Prod.mk.injEq, Address.hex_injective.eq_iff]
    split <;> rfl
  tidy other file hfile := by
    have hne : (other, file) ≠ (space, a.hex) := fun heq => hfile a (Prod.mk.inj heq).2.symm
    rw [hwrote.nodes, if_neg (mt blobPath_eq_iff.mp hne), h.tidy other file hfile]
  name other name := by
    rw [hwrote.nodes, if_neg blobPath_ne_namePath.symm, h.name]
  bound := h.bound
  separate := h.separate.later hwrote.process (by rw [hwrote.writes]; exact Nat.le_succ _)

theorem wrote_name (h : Mirrors names s m) (hname : (space, name) ∈ names)
    (hwrote : s.Wrote (DirectoryStore.nameDirectory space ++ [name]) (Text.encodeUtf8 a.hex) s') :
    Mirrors names s' { m with names := m.names.insert (space, name) a } where
  blobDirectory other := hwrote.isDirectory (h.blobDirectory other) (h.name_ne_directory space name)
  nameDirectory other := hwrote.isDirectory (h.nameDirectory other) (h.name_ne_directory space name)
  blob other b := by
    rw [hwrote.nodes, if_neg blobPath_ne_namePath, h.blob]
  tidy other file hfile := by
    rw [hwrote.nodes, if_neg blobPath_ne_namePath, h.tidy other file hfile]
  name other name' := by
    rw [hwrote.nodes, h.name, Table.get?_insert]
    simp only [namePath_eq_iff]
    split <;> rfl
  bound other name' hsome := by
    rw [Table.get?_insert] at hsome
    split at hsome
    · rename_i heq
      rwa [heq]
    · exact h.bound other name' hsome
  separate := h.separate.later hwrote.process (by rw [hwrote.writes]; exact Nat.le_succ _)

theorem removed_name (h : Mirrors names s m) (space : Space) (name : String) :
    Mirrors names
      { s with tree := { s.tree with
        nodes := s.tree.nodes.erase (DirectoryStore.nameDirectory space ++ [name]) } }
      { m with names := m.names.erase (space, name) } where
  blobDirectory other := (h.blobDirectory other).erase_file (h.name_ne_directory space name)
  nameDirectory other := (h.nameDirectory other).erase_file (h.name_ne_directory space name)
  blob other b := by
    rw [Table.get?_erase, if_neg blobPath_ne_namePath, h.blob]
  tidy other file hfile := by
    rw [Table.get?_erase, if_neg blobPath_ne_namePath, h.tidy other file hfile]
  name other name' := by
    rw [Table.get?_erase, h.name, Table.get?_erase]
    simp only [namePath_eq_iff]
    split <;> rfl
  bound other name' hsome := by
    rw [Table.get?_erase] at hsome
    split at hsome
    · cases hsome
    · exact h.bound other name' hsome
  separate := h.separate

end Mirrors

/-- A computation on a directory gives what one on a store in memory gives, and the directory then holds what the
store in memory holds. -/
def Mirrored {α : Type} (names : List (Space × String)) (s : DirectoryStore) (m : MemoryStore)
    (x : StoreM DirectoryStore α) (y : StoreM MemoryStore α) : Prop :=
  (x.run s).1 = (y.run m).1 ∧ Mirrors names (x.run s).2 (y.run m).2

theorem Mirrored.map {α β : Type} {x : StoreM DirectoryStore α} {y : StoreM MemoryStore α}
    (h : Mirrored names s m x y) (f : α → β) : Mirrored names s m (f <$> x) (f <$> y) := by
  obtain ⟨hresult, hstate⟩ := h
  constructor
  · rw [run_map, run_map, hresult]
  · rw [run_map, run_map]
    exact hstate

namespace Mirrors

variable {space : Space} {a : Address}

/-! One call after the other. -/

theorem get (h : Mirrors names s m) (space : Space) (a : Address) :
    Mirrored names s m (DirectoryStore.get space a) (MemoryStore.get space a) := by
  have hread := run_readFile ((h.blobDirectory space).read?_entry (h.blob space a))
  unfold Mirrored DirectoryStore.get
  rw [hread]
  exact ⟨rfl, h⟩

theorem put (h : Mirrors names s m) (space : Space) (a : Address) (bytes : List UInt8) :
    Mirrored names s m (DirectoryStore.put space a bytes) (MemoryStore.put space a bytes) := by
  have hhas : s.tree.hasNode (DirectoryStore.blobDirectory space ++ [a.hex]) = m.blobs.contains (space, a) := by
    rw [(h.blobDirectory space).hasNode_entry, h.blob, Option.isSome_map, Table.contains]
  show ((DirectoryStore.put space a bytes).run s).1 = (MemoryStore.put space a bytes m).1 ∧
    Mirrors names ((DirectoryStore.put space a bytes).run s).2 (MemoryStore.put space a bytes m).2
  unfold DirectoryStore.put MemoryStore.put
  rw [run_bind, run_get]
  simp only [hhas]
  split
  · exact ⟨rfl, h⟩
  · -- The temporary file is no file of an address, so the directory has none of that name.
    obtain ⟨temporary, htemporary, hfree⟩ := exists_temporaryName?_hex s a
    obtain ⟨s', hrun, hwrote⟩ := run_writeFile (h.blobDirectory space) htemporary (h.tidy space _ hfree)
      (h.blob_ne_directory space a) (hfree a).symm bytes
    rw [run_bind, hrun]
    exact ⟨rfl, h.wrote_blob hwrote⟩

theorem run_lookup (h : Mirrors names s m) (space : Space) (name : String) :
    (DirectoryStore.lookup space name).run s = ((MemoryStore.lookup space name m).1, s) := by
  have hfile : s.tree.nodes.get? (DirectoryStore.nameDirectory space ++ [name]) =
      ((m.names.get? (space, name)).map fun a => Text.encodeUtf8 a.hex).map .file := by
    rw [h.name, Option.map_map]
    rfl
  have hread := run_readFile ((h.nameDirectory space).read?_entry hfile)
  unfold DirectoryStore.lookup MemoryStore.lookup
  rw [run_bind, run_lift]
  cases checkName name with
  | error e => rfl
  | ok _ =>
    simp only [run_bind, hread]
    cases m.names.get? (space, name) with
    | none => rfl
    | some a =>
      simp only [Option.map_some, readAddress_hex]
      rfl

theorem lookup (h : Mirrors names s m) (space : Space) (name : String) :
    Mirrored names s m (DirectoryStore.lookup space name) (MemoryStore.lookup space name) := by
  have hstate : (MemoryStore.lookup space name m).2 = m := by
    unfold MemoryStore.lookup
    split <;> rfl
  show ((DirectoryStore.lookup space name).run s).1 = (MemoryStore.lookup space name m).1 ∧
    Mirrors names ((DirectoryStore.lookup space name).run s).2 (MemoryStore.lookup space name m).2
  rw [h.run_lookup, hstate]
  exact ⟨rfl, h⟩

theorem exists_run_writeFile (h : Mirrors names s m) (hname : (space, name) ∈ names) (a : Address) :
    ∃ s', (writeFile (DirectoryStore.nameDirectory space) name (Text.encodeUtf8 a.hex)).run s = (.ok (), s') ∧
      Mirrors names s' { m with names := m.names.insert (space, name) a } := by
  obtain ⟨temporary, htemporary, hnot⟩ := h.separate _ hname s.writes (Nat.le_refl _)
  have hfree : s.tree.nodes.get? (DirectoryStore.nameDirectory space ++ [temporary]) = none := by
    have hunbound := mt (h.bound space temporary) hnot
    rw [h.name, Option.not_isSome_iff_eq_none.mp hunbound]
    rfl
  -- A bound name that is its own temporary name would be in its own way.
  have hne : temporary ≠ name := fun heq => hnot (heq ▸ hname)
  obtain ⟨s', hrun, hwrote⟩ := run_writeFile (h.nameDirectory space) htemporary hfree
    (h.name_ne_directory space name) hne (Text.encodeUtf8 a.hex)
  exact ⟨s', hrun, h.wrote_name hname hwrote⟩

theorem bind (h : Mirrors names s m) (space : Space) (name : String) (a : Address) (update : Bool)
    (hname : isValidName name → (space, name) ∈ names) :
    Mirrored names s m (DirectoryStore.bind space name a update) (MemoryStore.bind space name a update) := by
  show ((DirectoryStore.bind space name a update).run s).1 = (MemoryStore.bind space name a update m).1 ∧
    Mirrors names ((DirectoryStore.bind space name a update).run s).2 (MemoryStore.bind space name a update m).2
  unfold DirectoryStore.bind MemoryStore.bind
  rw [run_bind, h.run_lookup, MemoryStore.lookup]
  cases hcheck : checkName name with
  | error e => exact ⟨rfl, h⟩
  | ok _ =>
    have hmem := hname (isValidName_of_checkName hcheck)
    obtain ⟨s', hrun, hmirrors⟩ := h.exists_run_writeFile hmem a
    cases m.names.get? (space, name) with
    | none =>
      simp only [run_bind, hrun]
      exact ⟨rfl, hmirrors⟩
    | some existing =>
      simp only
      split
      · exact ⟨rfl, h⟩
      · split
        · simp only [run_bind, hrun]
          exact ⟨rfl, hmirrors⟩
        · exact ⟨rfl, h⟩

theorem unbind (h : Mirrors names s m) (space : Space) (name : String) :
    Mirrored names s m (DirectoryStore.unbind space name) (MemoryStore.unbind space name) := by
  have hremoved := h.removed_name space name
  show (DirectoryStore.unbind space name s).1 = (MemoryStore.unbind space name m).1 ∧
    Mirrors names (DirectoryStore.unbind space name s).2 (MemoryStore.unbind space name m).2
  unfold DirectoryStore.unbind MemoryStore.unbind
  cases checkName name with
  | error e => exact ⟨rfl, h⟩
  | ok _ =>
    have hnode := h.name space name
    cases hget : m.names.get? (space, name) with
    | none =>
      rw [hget] at hnode
      simp only [(h.nameDirectory space).remove_missing hnode, Table.contains, hget, Table.erase_eq_self hget]
      exact ⟨rfl, h⟩
    | some a =>
      rw [hget] at hnode
      simp only [(h.nameDirectory space).remove_entry hnode, Table.contains, hget]
      exact ⟨rfl, hremoved⟩

/-- A directory answers a call as the store in memory that it mirrors, and mirrors it afterwards. -/
theorem perform (h : Mirrors names s m) (call : StoreCall) (hbound : boundNames [call] ⊆ names) :
    Mirrored names s m call.perform call.perform := by
  cases call with
  | get space a => exact (h.get space a).map Answer.bytes
  | put space a bytes => exact (h.put space a bytes).map Answer.flag
  | lookup space name => exact (h.lookup space name).map Answer.address
  | bind space name a update =>
    refine (h.bind space name a update fun hname => hbound ?_).map Answer.flag
    simp [boundNames, hname]
  | unbind space name => exact (h.unbind space name).map Answer.flag

/-- A directory answers all calls as the store in memory that it mirrors. -/
theorem answers (h : Mirrors names s m) (calls : List StoreCall) (hbound : boundNames calls ⊆ names) :
    StoreCall.answers s calls = StoreCall.answers m calls := by
  induction calls generalizing s m with
  | nil => rfl
  | cons call calls ih =>
    rw [boundNames_cons, List.append_subset] at hbound
    obtain ⟨hanswer, hmirrors⟩ := h.perform call hbound.1
    rw [StoreCall.answers, StoreCall.answers, hanswer, ih hmirrors hbound.2]

end Mirrors

/-! ## A new store -/

/-- What is below a root when a store has been opened there for the first time. -/
def newTree : FileTree where
  nodes := ⟨[(nameDirectory .type, .directory), (blobDirectory .type, .directory),
    (nameDirectory .term, .directory), (["names"], .directory), (blobDirectory .term, .directory)], by decide⟩
  limit := none

theorem run_openAt_new (process writes : Nat) :
    openAt.run ⟨.empty none, process, writes⟩ = (.ok (), ⟨newTree, process, writes⟩) := rfl

theorem get?_newTree_blobPath (space : Space) (file : String) :
    newTree.nodes.get? (blobDirectory space ++ [file]) = none := by
  cases space <;> simp [Table.get?_eq_none_iff, Table.keys, newTree, blobDirectory, nameDirectory, Space.directory]

theorem get?_newTree_namePath (space : Space) (name : String) :
    newTree.nodes.get? (nameDirectory space ++ [name]) = none := by
  cases space <;> simp [Table.get?_eq_none_iff, Table.keys, newTree, blobDirectory, nameDirectory]

theorem mirrors_new (process writes : Nat) (h : Separates ⟨newTree, process, writes⟩ names) :
    Mirrors names ⟨newTree, process, writes⟩ .empty where
  blobDirectory space := ⟨rfl, by cases space <;> rfl⟩
  nameDirectory space := ⟨rfl, by cases space <;> rfl⟩
  blob space a := get?_newTree_blobPath space a.hex
  tidy space file _ := get?_newTree_blobPath space file
  name := get?_newTree_namePath
  bound space name hsome := by cases hsome
  separate := h

end DirectoryStore

namespace StoreCall

open DirectoryStore

/-- A store that is opened in a directory without content opens, and answers all calls as a new store in memory
does, if no temporary name gets into the way of a name that the calls bind. -/
theorem answers_directory (process writes : Nat) (calls : List StoreCall)
    (h : Separates ⟨.empty none, process, writes⟩ (boundNames calls)) :
    ∃ s, openAt.run ⟨.empty none, process, writes⟩ = (.ok (), s) ∧
      answers s calls = answers MemoryStore.empty calls :=
  ⟨_, run_openAt_new process writes,
    (mirrors_new process writes (h.later rfl (Nat.le_refl _))).answers calls (List.Subset.refl _)⟩

/-- Bytes are stored, a name is bound in both spaces, bound anew in one of them and taken away in the other. -/
theorem answers_directory_rebound :
    let a : Address := ⟨.replicate 32 0⟩
    let b : Address := ⟨.replicate 32 255⟩
    let calls := [put .term a [1, 2], put .term a [3], get .term a, bind .term "two.pi" a false,
      bind .type "two.pi" b false, bind .term "two.pi" b false, bind .term "two.pi" b true, bind .term "../x" a true,
      lookup .term "two.pi", unbind .type "two.pi", lookup .type "two.pi"]
    Separates ⟨.empty none, 1, 0⟩ (boundNames calls) ∧
      ∃ s, openAt.run ⟨.empty none, 1, 0⟩ = (.ok (), s) ∧ answers s calls =
        [.ok (.flag true), .ok (.flag false), .ok (.bytes (some [1, 2])), .ok (.flag true), .ok (.flag true),
          .error (.nameConflict .term "two.pi" a), .ok (.flag false), .error (.invalidName "../x"),
          .ok (.address (some b)), .ok (.flag true), .ok (.address none)] := by
  intro a b calls
  have hseparates : Separates ⟨.empty none, 1, 0⟩ (boundNames calls) :=
    separates_of_count_dot (by decide)
  obtain ⟨s, hopen, hanswers⟩ := answers_directory 1 0 calls hseparates
  exact ⟨hseparates, s, hopen, hanswers.trans (by decide +kernel)⟩

/-- A name with only a dot in front of its extension can be bound in memory, but has no temporary name.  And a name
that looks like a temporary one is lost when the name is written that it is the temporary name of. -/
theorem answers_in_the_way :
    let a : Address := ⟨.replicate 32 0⟩
    let b : Address := ⟨.replicate 32 255⟩
    let s : DirectoryStore := (openAt.run ⟨.empty none, 1, 0⟩).2
    let dots := [bind .term "..x" a false, lookup .term "..x"]
    let twins := [bind .term "x.tmp.1.1" a false, bind .term "x" b false, lookup .term "x.tmp.1.1"]
    (answers s dots = [.error (.file .isDirectory), .ok (.address none)] ∧
        answers MemoryStore.empty dots = [.ok (.flag true), .ok (.address (some a))]) ∧
      answers s twins = [.ok (.flag true), .ok (.flag true), .ok (.address none)] ∧
        answers MemoryStore.empty twins = [.ok (.flag true), .ok (.flag true), .ok (.address (some a))] := by
  decide +kernel

end StoreCall

end AddressedF
