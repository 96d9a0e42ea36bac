import FileMesh.Bytes

/-!
# The BLAKE3 hash function

The unkeyed hash: the input is cut into chunks of 1024 bytes, each chunk is compressed block by
block, and the chunk values are joined by a binary tree whose left subtree is as large a power of
two as leaves a right subtree.
-/

namespace FileMesh.Blake3

/-- The initial value, shared with the sixteen-word state. -/
def initial : Vector UInt32 8 :=
  #v[0x6A09E667, 0xBB67AE85, 0x3C6EF372, 0xA54FF53A, 0x510E527F, 0x9B05688C, 0x1F83D9AB, 0x5BE0CD19]

/-- Marks the first block of a chunk. -/
def chunkStart : UInt32 := 1
/-- Marks the last block of a chunk. -/
def chunkEnd : UInt32 := 2
/-- Marks a node that joins two subtrees. -/
def parentNode : UInt32 := 4
/-- Marks the last compression. -/
def rootNode : UInt32 := 8

/-- Sixteen words of state or message. -/
abbrev Words := Vector UInt32 16

@[inline] def rotateRight (x n : UInt32) : UInt32 := (x >>> n) ||| (x <<< (32 - n))

/-- The quarter round on the positions `a`, `b`, `c`, `d` with two message words. -/
@[inline] def mix (v : Words) (a b c d : Fin 16) (x y : UInt32) : Words :=
  let va := v[a] + v[b] + x
  let vd := rotateRight (v[d] ^^^ va) 16
  let vc := v[c] + vd
  let vb := rotateRight (v[b] ^^^ vc) 12
  let va := va + vb + y
  let vd := rotateRight (vd ^^^ va) 8
  let vc := vc + vd
  let vb := rotateRight (vb ^^^ vc) 7
  (((v.set a va).set b vb).set c vc).set d vd

/-- One round: the four columns, then the four diagonals. -/
def round (v m : Words) : Words :=
  let v := mix v 0 4 8 12 m[0] m[1]
  let v := mix v 1 5 9 13 m[2] m[3]
  let v := mix v 2 6 10 14 m[4] m[5]
  let v := mix v 3 7 11 15 m[6] m[7]
  let v := mix v 0 5 10 15 m[8] m[9]
  let v := mix v 1 6 11 12 m[10] m[11]
  let v := mix v 2 7 8 13 m[12] m[13]
  mix v 3 4 9 14 m[14] m[15]

/-- The reordering of the message words between rounds. -/
def permute (m : Words) : Words :=
  #v[m[2], m[6], m[3], m[10], m[7], m[0], m[4], m[13], m[1], m[11], m[12], m[5], m[9], m[14], m[15],
    m[8]]

/-- `n + 1` rounds. -/
def rounds : Nat → Words → Words → Words
  | 0, v, m => round v m
  | n + 1, v, m => rounds n (round v m) (permute m)

/-- The compression function. `counter` is a chunk's number, `length` the number of message bytes.
-/
def compress (cv : Vector UInt32 8) (m : Words) (counter : UInt64) (length flags : UInt32) :
    Words :=
  let v : Words :=
    #v[cv[0], cv[1], cv[2], cv[3], cv[4], cv[5], cv[6], cv[7],
      initial[0], initial[1], initial[2], initial[3],
      counter.toUInt32, (counter >>> 32).toUInt32, length, flags]
  let v := rounds 6 v m
  #v[v[0] ^^^ v[8], v[1] ^^^ v[9], v[2] ^^^ v[10], v[3] ^^^ v[11],
    v[4] ^^^ v[12], v[5] ^^^ v[13], v[6] ^^^ v[14], v[7] ^^^ v[15],
    v[8] ^^^ cv[0], v[9] ^^^ cv[1], v[10] ^^^ cv[2], v[11] ^^^ cv[3],
    v[12] ^^^ cv[4], v[13] ^^^ cv[5], v[14] ^^^ cv[6], v[15] ^^^ cv[7]]

/-- The first eight words: the value that is passed on. -/
def chaining (w : Words) : Vector UInt32 8 := #v[w[0], w[1], w[2], w[3], w[4], w[5], w[6], w[7]]

/-- Little-endian words of a block; a last group of fewer than four bytes is extended by zeros. -/
def wordsOf : Bytes → List UInt32
  | a :: b :: c :: d :: rest =>
    (a.toUInt32 ||| (b.toUInt32 <<< 8) ||| (c.toUInt32 <<< 16) ||| (d.toUInt32 <<< 24)) ::
      wordsOf rest
  | [] => []
  | tail => [UInt32.ofNat (Bytes.toNatLE tail)]

def message (block : Bytes) : Words :=
  let words := (wordsOf block).toArray
  Vector.ofFn fun i => words.getD i.val 0

/-- What is left to do for a node of the tree: one compression, of its last block onto the chaining
value so far. The counter is the number of the chunk, zero for a joining node, and the flags depend
on whether the node is the root. -/
structure Node where
  cv : Vector UInt32 8
  words : Words
  counter : UInt64
  length : UInt32
  flags : UInt32

/-- The node's value for its parent. -/
def Node.value (n : Node) : Vector UInt32 8 :=
  chaining (compress n.cv n.words n.counter n.length n.flags)

/-- The node's output as the root: sixteen words. -/
def Node.rootWords (n : Node) : Words :=
  compress n.cv n.words 0 n.length (n.flags ||| rootNode)

/-- `data` in pieces of `n` bytes, the last one shorter if need be. -/
def pieces (n : Nat) (data : Bytes) : List Bytes :=
  if n = 0 ∨ data = [] then []
  else data.take n :: pieces n (data.drop n)
termination_by data.length
decreasing_by
  have : 0 < data.length := List.length_pos_iff.mpr (by grind)
  simp only [List.length_drop]
  omega

/-- The node of a chunk given by its blocks, of which at least one is expected. -/
def chunkOfBlocks (counter : UInt64) (cv : Vector UInt32 8) (flags : UInt32) : List Bytes → Node
  | [] => ⟨cv, message [], counter, 0, flags ||| chunkEnd⟩
  | [last] => ⟨cv, message last, counter, UInt32.ofNat last.length, flags ||| chunkEnd⟩
  | block :: rest =>
    let next := chaining (compress cv (message block) counter (UInt32.ofNat block.length) flags)
    chunkOfBlocks counter next 0 rest

def chunk (counter : Nat) (data : Bytes) : Node :=
  chunkOfBlocks (UInt64.ofNat counter) initial chunkStart (pieces 64 data)

/-- The node that joins two subtrees. -/
def join (left right : Node) : Node :=
  let l := left.value
  let r := right.value
  ⟨initial, #v[l[0], l[1], l[2], l[3], l[4], l[5], l[6], l[7],
    r[0], r[1], r[2], r[3], r[4], r[5], r[6], r[7]], 0, 64, parentNode⟩

/-- The number of chunks in the left subtree of `n` chunks: the largest power of two below `n`. -/
def leftSize (n : Nat) : Nat := 1 <<< (n - 1).log2

theorem leftSize_pos (n : Nat) : 0 < leftSize n := by
  rw [leftSize, Nat.one_shiftLeft]
  exact Nat.two_pow_pos _

theorem leftSize_lt {n : Nat} (h : 2 ≤ n) : leftSize n < n := by
  have : leftSize n ≤ n - 1 := by
    rw [leftSize, Nat.one_shiftLeft]
    exact Nat.log2_self_le (by omega)
  omega

/-- The tree over a list of chunks, the first of which has this number; no chunk counts as one empty
chunk. -/
def tree (counter : Nat) (chunks : List Bytes) : Node :=
  if _ : 2 ≤ chunks.length then
    let k := leftSize chunks.length
    join (tree counter (chunks.take k)) (tree (counter + k) (chunks.drop k))
  else chunk counter (chunks.headD [])
termination_by chunks.length
decreasing_by
  · have := leftSize_lt ‹2 ≤ chunks.length›
    simp only [List.length_take]
    omega
  · have := leftSize_pos chunks.length
    simp only [List.length_drop]
    omega

/-- The first 32 bytes of the hash. -/
def digest (data : Bytes) : Bytes :=
  let words := (tree 0 (pieces 1024 data)).rootWords
  (words.toList.take 8).flatMap fun w => Bytes.ofNatLE 4 w.toNat

theorem length_digest (data : Bytes) : (digest data).length = 32 := by
  simp [digest, List.length_flatMap, List.map_const']

end FileMesh.Blake3
