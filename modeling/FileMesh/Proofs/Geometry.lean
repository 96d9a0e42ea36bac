import FileMesh.Proofs.Admission
import Mathlib.Order.Bounds.Defs

/-!
# Chunk geometry over all sizes

The eight chunks of a file of any size lie side by side from its first byte to its last. Nothing in
the computation of a range wraps around: it has the same results with operations that refuse to. The
same goes for the length of the longest delivery, which is the length that a node looks at before it
starts a download.
-/

namespace FileMesh

/-! ## Words -/

namespace Exact

variable {a b : UInt64}

/-- A sum that is not above the largest word. -/
def add (a b : UInt64) : Option UInt64 :=
  if BitVec.uaddOverflow a.toBitVec b.toBitVec then none else some (a + b)

/-- A difference that is not below zero. -/
def sub (a b : UInt64) : Option UInt64 :=
  if BitVec.usubOverflow a.toBitVec b.toBitVec then none else some (a - b)

/-- A product that is not above the largest word. -/
def mul (a b : UInt64) : Option UInt64 :=
  if BitVec.umulOverflow a.toBitVec b.toBitVec then none else some (a * b)

theorem add_of_lt (h : a.toNat + b.toNat < 2 ^ 64) : add a b = some (a + b) := by
  simpa [add, BitVec.uaddOverflow] using h

theorem sub_of_le (h : b.toNat ≤ a.toNat) : sub a b = some (a - b) := by
  simpa [sub, BitVec.usubOverflow] using h

theorem mul_of_lt (h : a.toNat * b.toNat < 2 ^ 64) : mul a b = some (a * b) := by
  simpa [mul, BitVec.umulOverflow] using h

end Exact

/-! ## Ranges -/

namespace ChunkRange

variable (size : UInt64) (i : ChunkIndex)

/-- The range of chunk `i`, if nothing wraps around. -/
def ofIndexExact (size : UInt64) (i : ChunkIndex) : Option ChunkRange := do
  let base := size / 8
  let start ← Exact.mul base (UInt64.ofNat i.val)
  let stop ← if i.val = 7 then some size else Exact.add start base
  return ⟨start, stop⟩

/-- The number of bytes in a range, if nothing wraps around. -/
def lengthExact (r : ChunkRange) : Option UInt64 := Exact.sub r.stop r.start

/-- The range of chunk `index`, or what is said when there is no such chunk. -/
def require (size : UInt64) (index : Nat) : Except String ChunkRange :=
  match ofIndex? size index with
  | some r => .ok r
  | none => .error (outOfRangeMessage index)

/-- No range wraps around. -/
theorem ofIndexExact_eq : ofIndexExact size i = some (ofIndex size i) := by
  have hsize := size.toNat_lt
  have hi : i.val < 8 := i.isLt
  have hindex : (UInt64.ofNat i.val).toNat = i.val := by
    rw [UInt64.toNat_ofNat', Nat.mod_eq_of_lt (by omega)]
  have heighth : (size / 8).toNat = size.toNat / 8 := UInt64.toNat_div size 8
  have hstart : (size / 8 * UInt64.ofNat i.val).toNat = size.toNat / 8 * i.val := toNat_start size i
  have hle : size.toNat / 8 * (i.val + 1) ≤ size.toNat / 8 * 8 := Nat.mul_le_mul_left _ (by omega)
  rw [Nat.mul_add, Nat.mul_one] at hle
  have hmul : Exact.mul (size / 8) (UInt64.ofNat i.val) = some (size / 8 * UInt64.ofNat i.val) :=
    Exact.mul_of_lt (by rw [hindex, heighth]; omega)
  have hadd : Exact.add (size / 8 * UInt64.ofNat i.val) (size / 8) =
      some (size / 8 * UInt64.ofNat i.val + size / 8) :=
    Exact.add_of_lt (by rw [hstart, heighth]; omega)
  by_cases hlast : i.val = 7
  · simp only [ofIndexExact, ofIndex, hmul, if_pos hlast, Option.bind_eq_bind, Option.bind_some,
      Option.pure_def]
  · simp only [ofIndexExact, ofIndex, hmul, hadd, if_neg hlast, Option.bind_eq_bind,
      Option.bind_some, Option.pure_def]

theorem lengthExact_eq : (ofIndex size i).lengthExact = some (ofIndex size i).length :=
  Exact.sub_of_le (start_le_stop size i)

theorem ofIndex?_val : ofIndex? size i.val = some (ofIndex size i) := dif_pos i.isLt

/-- A range is given for the numbers of chunks, and for every other number it is said that it is
none. -/
theorem require_eq (index : Nat) : require size index =
    if h : index < chunkCount then .ok (ofIndex size ⟨index, h⟩)
    else .error (outOfRangeMessage index) := by
  rw [require, ofIndex?]
  by_cases h : index < chunkCount
  · rw [dif_pos h, dif_pos h]
  · rw [dif_neg h, dif_neg h]

theorem start_zero : (ofIndex size 0).start = 0 := by
  rw [← UInt64.toNat_inj, toNat_start]
  exact Nat.mul_zero _

/-- A chunk begins where the one before it ends. -/
theorem start_of_succ {i j : ChunkIndex} (h : j.val = i.val + 1) :
    (ofIndex size j).start = (ofIndex size i).stop := by
  have hj : j.val < 8 := j.isLt
  rw [← UInt64.toNat_inj, toNat_start, toNat_stop, if_neg (by omega), h]

theorem stop_last : (ofIndex size 7).stop = size := rfl

/-- An offset in a file lies in one chunk. -/
theorem existsUnique_mem {k : UInt64} (h : k < size) :
    ∃! i, (ofIndex size i).start ≤ k ∧ k < (ofIndex size i).stop := by
  simp only [UInt64.le_iff_toNat_le, UInt64.lt_iff_toNat_lt] at h ⊢
  obtain ⟨i, hi⟩ := exists_mem_range size h
  refine ⟨i, hi, fun j hj => ?_⟩
  dsimp only at hj
  rcases Nat.lt_trichotomy i.val j.val with hlt | heq | hgt
  · have := stop_le_start_of_lt size (i := i) (j := j) hlt
    omega
  · exact Fin.ext heq.symm
  · have := stop_le_start_of_lt size (i := j) (j := i) hgt
    omega

/-- The last chunk takes what the others leave over. -/
theorem toNat_length_eq : (ofIndex size i).length.toNat =
    if i.val = 7 then size.toNat / 8 + size.toNat % 8 else size.toNat / 8 := by
  rw [toNat_length, toNat_start, toNat_stop]
  by_cases hlast : i.val = 7
  · rw [if_pos hlast, if_pos hlast, hlast]
    omega
  · rw [if_neg hlast, if_neg hlast, Nat.mul_add]
    omega

end ChunkRange

/-! ## Deliveries -/

/-- The payload length of the delivery of the largest chunk, if nothing wraps around. -/
def Download.deliveryLengthExact (d : Descriptor) : Option UInt64 := do
  let last ← ChunkRange.ofIndexExact d.size (Fin.last 7)
  let length ← last.lengthExact
  Exact.add length (UInt64.ofNat ChunkData.fixedWidth)

/-- The length of the longest delivery does not wrap around. -/
theorem Download.deliveryLengthExact_eq (d : Descriptor) :
    deliveryLengthExact d = some (deliveryLength d) := by
  have hsize := d.size.toNat_lt
  have hlength := ChunkRange.toNat_length_eq d.size (Fin.last 7)
  simp only [deliveryLengthExact, ChunkRange.ofIndexExact_eq, ChunkRange.lengthExact_eq,
    Option.bind_eq_bind, Option.bind_some]
  apply Exact.add_of_lt
  rw [hlength]
  show _ + 24 < _
  split <;> omega

namespace Descriptor

variable {d : Descriptor}

/-- The data has the length of a chunk of the file, which it is said to be. -/
def IsChunk (d : Descriptor) (i : ChunkIndex) (c : ChunkData) : Prop :=
  c.hash = d.hash ∧ c.chunkIndex = UInt32.ofNat i.val ∧ c.data.length = (d.range i).length.toNat

/-- The longest payload that holds a chunk of the file. -/
theorem isGreatest_deliveryLength (d : Descriptor) :
    IsGreatest {n | ∃ i c, d.IsChunk i c ∧ n = (Message.encodeData c).length}
      (Download.deliveryLength d).toNat := by
  rw [Download.toNat_deliveryLength]
  refine ⟨⟨7, ⟨d.hash, UInt32.ofNat 7, 0, Bytes.zeros (d.range 7).length.toNat⟩,
    ⟨rfl, rfl, Bytes.length_zeros _⟩, ?_⟩, ?_⟩
  · rw [Message.length_encodeData, Bytes.length_zeros]
  · rintro _ ⟨i, c, ⟨-, -, hlen⟩, rfl⟩
    rw [Message.length_encodeData, hlen]
    exact Nat.add_le_add_left (d.length_range_le_last i) _

/-- How a file lies in its chunks. A range is given for the numbers of chunks alone, and every other
number is said to be out of range. What is given is the range, wherever it is asked for, and its
computation does not wrap around. The first chunk begins with the file, every other one where the
one before it ends, and the last one ends with the file, so every offset lies in one chunk. The last
chunk takes what the others leave over and is the largest. The length that a node looks at does not
wrap around either, and it is that of the longest payload that holds a chunk. -/
structure CutEvenly (d : Descriptor) : Prop where
  isSome_iff : ∀ index, (d.chunkRange? index).isSome = true ↔ index < chunkCount
  require_eq_error_iff : ∀ index message, ChunkRange.require d.size index = .error message ↔
    chunkCount ≤ index ∧ message = ChunkRange.outOfRangeMessage index
  range_eq : ∀ i : ChunkIndex, d.chunkRange? i.val = some (d.range i) ∧
    ChunkRange.require d.size i.val = .ok (d.range i)
  exact : ∀ i, ChunkRange.ofIndexExact d.size i = some (d.range i) ∧
    (d.range i).lengthExact = some (d.range i).length
  start_zero : (d.range 0).start = 0
  start_of_succ : ∀ i j : ChunkIndex, j.val = i.val + 1 → (d.range j).start = (d.range i).stop
  stop_last : (d.range 7).stop = d.size
  existsUnique : ∀ k < d.size, ∃! i, (d.range i).start ≤ k ∧ k < (d.range i).stop
  length_eq : ∀ i, (d.range i).length.toNat =
    if i.val = 7 then d.size.toNat / 8 + d.size.toNat % 8 else d.size.toNat / 8
  length_le : ∀ i, (d.range i).length ≤ (d.range 7).length
  deliveryLength_exact : Download.deliveryLengthExact d = some (Download.deliveryLength d)
  isGreatest : IsGreatest {n | ∃ i c, d.IsChunk i c ∧ n = (Message.encodeData c).length}
    (Download.deliveryLength d).toNat

/-- Whatever its size, a file lies in its chunks side by side. -/
theorem cutEvenly (d : Descriptor) : d.CutEvenly where
  isSome_iff := ChunkRange.ofIndex?_isSome d.size
  require_eq_error_iff index message := by
    rw [ChunkRange.require_eq]
    by_cases h : index < chunkCount
    · rw [dif_pos h]
      exact iff_of_false (fun he => nomatch he) fun he => absurd h (Nat.not_lt.2 he.1)
    · rw [dif_neg h, and_iff_right (Nat.le_of_not_lt h), Except.error.injEq, eq_comm]
  range_eq i := by
    refine ⟨ChunkRange.ofIndex?_val d.size i, ?_⟩
    rw [ChunkRange.require_eq, dif_pos i.isLt]
    rfl
  exact i := ⟨ChunkRange.ofIndexExact_eq d.size i, ChunkRange.lengthExact_eq d.size i⟩
  start_zero := ChunkRange.start_zero d.size
  start_of_succ i j h := ChunkRange.start_of_succ d.size h
  stop_last := ChunkRange.stop_last d.size
  existsUnique k h := ChunkRange.existsUnique_mem d.size h
  length_eq i := ChunkRange.toNat_length_eq d.size i
  length_le i := UInt64.le_iff_toNat_le.2 (d.length_range_le_last i)
  deliveryLength_exact := Download.deliveryLengthExact_eq d
  isGreatest := d.isGreatest_deliveryLength

end Descriptor

end FileMesh
