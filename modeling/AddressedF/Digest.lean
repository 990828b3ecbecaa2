/-!
# The BLAKE3 Digest

The digest that names stored bytes: BLAKE3 in its plain hashing mode, with 32 bytes of output.

## Main Definitions

* `Digest.compress`: the compression function on one block of sixteen words
* `Digest.Node`: a node of the hash tree, not yet compressed
* `Digest.subtree`: the root node of the hash tree over a byte string
* `Digest.ofBytes`: the 32-byte digest of a byte string

## Design Notes

Input is a list of bytes.  It is cut into chunks of 1024 bytes, and a chunk into blocks of 64 bytes.  The
chunks are the leaves of a binary tree whose left subtree is complete and as large as it can be while the
right one stays nonempty.  A node is kept uncompressed, because the root is compressed with one flag more
than any other node.
-/

namespace AddressedF.Digest

/-- The chaining value between two compressions. -/
abbrev Chain := Vector UInt32 8

/-- A message block, or the state of a compression. -/
abbrev Block := Vector UInt32 16

/-- The number of bytes in a block. -/
def blockSize : Nat := 64

/-- The number of bytes in a chunk, the content of a leaf. -/
def chunkSize : Nat := 1024

/-- The initial chaining value. -/
def initial : Chain :=
  #v[0x6A09E667, 0xBB67AE85, 0x3C6EF372, 0xA54FF53A, 0x510E527F, 0x9B05688C, 0x1F83D9AB, 0x5BE0CD19]

/-- The order in which the next round reads the message words of this one. -/
def messageOrder : Vector (Fin 16) 16 :=
  #v[2, 6, 3, 10, 7, 0, 4, 13, 1, 11, 12, 5, 9, 14, 15, 8]

/-- The flags that tell the uses of the compression function apart. -/
structure Flags where
  /-- The first block of a chunk. -/
  chunkStart : Bool := false
  /-- The last block of a chunk. -/
  chunkEnd : Bool := false
  /-- A node with two subtrees. -/
  parent : Bool := false
  /-- The root of the whole tree. -/
  root : Bool := false

/-- The flags as a word: one bit each, lowest first. -/
def Flags.word (f : Flags) : UInt32 :=
  f.chunkStart.toUInt32 + 2 * f.chunkEnd.toUInt32 + 4 * f.parent.toUInt32 + 8 * f.root.toUInt32

/-- Rotation of a word to the right by `n` bits, for `n` between 1 and 31. -/
def rotateRight (w n : UInt32) : UInt32 :=
  (w >>> n) ||| (w <<< (32 - n))

/-- Mixes two message words into four words of the state. -/
def mix (s : Block) (a b c d : Fin 16) (x y : UInt32) : Block :=
  let s := s.set a (s[a] + s[b] + x)
  let s := s.set d (rotateRight (s[d] ^^^ s[a]) 16)
  let s := s.set c (s[c] + s[d])
  let s := s.set b (rotateRight (s[b] ^^^ s[c]) 12)
  let s := s.set a (s[a] + s[b] + y)
  let s := s.set d (rotateRight (s[d] ^^^ s[a]) 8)
  let s := s.set c (s[c] + s[d])
  s.set b (rotateRight (s[b] ^^^ s[c]) 7)

/-- One round: the four columns of the state, then its four diagonals. -/
def round (s m : Block) : Block :=
  let s := mix s 0 4 8 12 m[0] m[1]
  let s := mix s 1 5 9 13 m[2] m[3]
  let s := mix s 2 6 10 14 m[4] m[5]
  let s := mix s 3 7 11 15 m[6] m[7]
  let s := mix s 0 5 10 15 m[8] m[9]
  let s := mix s 1 6 11 12 m[10] m[11]
  let s := mix s 2 7 8 13 m[12] m[13]
  mix s 3 4 9 14 m[14] m[15]

/-- The message words in the order of the next round. -/
def reorder (m : Block) : Block :=
  Vector.ofFn fun i => m[messageOrder[i]]

/-- `n` rounds, the message reordered between them. -/
def rounds : Nat → Block → Block → Block
  | 0, s, _ => s
  | n + 1, s, m => rounds n (round s m) (reorder m)

/-- A node of the hash tree: what its compression reads. -/
structure Node where
  chain : Chain
  block : Block
  /-- The position of the chunk in the input, zero for a parent. -/
  counter : Nat
  /-- The number of bytes in the block. -/
  length : Nat
  flags : Flags

/-- The state at the start of the compression of a node. -/
def Node.start (n : Node) : Block :=
  let counter := UInt64.ofNat n.counter
  n.chain ++ (#v[initial[0], initial[1], initial[2], initial[3],
    counter.toUInt32, (counter >>> 32).toUInt32, UInt32.ofNat n.length, n.flags.word] : Chain)

/-- The chaining value of a node: the two halves of the state after seven rounds, added bit by bit. -/
def Node.compress (n : Node) : Chain :=
  let s := rounds 7 n.start n.block
  Vector.ofFn fun i => s[i.castLE (by decide : 8 ≤ 16)] ^^^ s[i.natAdd 8]

/-- The word with the given bytes, the lowest first. -/
def wordOfBytes (b₀ b₁ b₂ b₃ : UInt8) : UInt32 :=
  b₀.toUInt32 ||| (b₁.toUInt32 <<< 8) ||| (b₂.toUInt32 <<< 16) ||| (b₃.toUInt32 <<< 24)

/-- The bytes of a word, the lowest first. -/
def bytesOfWord (w : UInt32) : Vector UInt8 4 :=
  #v[w.toUInt8, (w >>> 8).toUInt8, (w >>> 16).toUInt8, (w >>> 24).toUInt8]

/-- A block holding the first 64 bytes of the input, filled up with zeros. -/
def blockOfBytes (bytes : List UInt8) : Block :=
  let bytes := (bytes.take blockSize).toArray
  let byte (i : Nat) : UInt8 := bytes[i]?.getD 0
  Vector.ofFn fun i =>
    wordOfBytes (byte (4 * i)) (byte (4 * i + 1)) (byte (4 * i + 2)) (byte (4 * i + 3))

/-- The node of the last block of a chunk, reached from chaining value `chain`. -/
def chunk (counter : Nat) (chain : Chain) (start : Bool) (bytes : List UInt8) : Node :=
  if bytes.length ≤ blockSize then
    ⟨chain, blockOfBytes bytes, counter, bytes.length, { chunkStart := start, chunkEnd := true }⟩
  else
    let first : Node := ⟨chain, blockOfBytes bytes, counter, blockSize, { chunkStart := start }⟩
    chunk counter first.compress false (bytes.drop blockSize)
termination_by bytes.length
decreasing_by simp only [List.length_drop, blockSize] at *; omega

/-- The node above two subtrees with the given chaining values. -/
def parent (left right : Chain) : Node :=
  ⟨initial, left ++ right, 0, blockSize, { parent := true }⟩

/-- The number of bytes in the left subtree over `size` bytes: the largest power of two of chunks that
leaves something to the right. -/
def leftSize (size : Nat) : Nat :=
  chunkSize <<< ((size - 1) / chunkSize).log2

theorem leftSize_pos (size : Nat) : 0 < leftSize size := by
  rw [leftSize, Nat.shiftLeft_eq]
  exact Nat.mul_pos (by decide) (Nat.two_pow_pos _)

theorem leftSize_lt {size : Nat} (h : chunkSize < size) : leftSize size < size := by
  have hq : (size - 1) / chunkSize ≠ 0 := by
    have := Nat.div_pos (show chunkSize ≤ size - 1 by omega) (by decide : 0 < chunkSize)
    omega
  have hlog : 2 ^ ((size - 1) / chunkSize).log2 ≤ (size - 1) / chunkSize := Nat.log2_self_le hq
  have hmul : leftSize size ≤ chunkSize * ((size - 1) / chunkSize) := by
    rw [leftSize, Nat.shiftLeft_eq]
    exact Nat.mul_le_mul_left _ hlog
  have hdiv : chunkSize * ((size - 1) / chunkSize) ≤ size - 1 := Nat.mul_div_le _ _
  omega

/-- The root node of the tree over `bytes`, whose first chunk has number `index`. -/
def subtree (index : Nat) (bytes : List UInt8) : Node :=
  if bytes.length ≤ chunkSize then
    chunk index initial true bytes
  else
    let size := leftSize bytes.length
    parent (subtree index (bytes.take size)).compress
      (subtree (index + size / chunkSize) (bytes.drop size)).compress
termination_by bytes.length
decreasing_by
  · have : leftSize bytes.length < bytes.length := leftSize_lt (by omega)
    simp only [List.length_take]; omega
  · have := leftSize_pos bytes.length
    simp only [List.length_drop, chunkSize] at *; omega

/-- The bytes of a chaining value, word by word. -/
def bytesOfChain (chain : Chain) : Vector UInt8 32 :=
  Vector.ofFn fun i => (bytesOfWord chain[i.val / 4])[i.val % 4]

/-- The digest of a byte string. -/
def ofBytes (bytes : List UInt8) : Vector UInt8 32 :=
  let top := subtree 0 bytes
  bytesOfChain { top with flags := { top.flags with root := true } }.compress

end AddressedF.Digest
