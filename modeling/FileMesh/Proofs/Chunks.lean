import FileMesh.Entry
import Mathlib.Data.List.FinRange
import Mathlib.Data.Nat.Bitwise

/-!
# Chunks of a content

The eight chunks of a file lie side by side and cover it, so a content is known once its chunks are,
and replacing one chunk leaves the others alone. A set of chunks is known by its members.
-/

namespace FileMesh

/-! ## Slices -/

namespace Bytes

@[simp] theorem length_slice (b : Bytes) (start n : Nat) :
    (b.slice start n).length = min n (b.length - start) := by
  simp [slice]

theorem getElem?_slice (b : Bytes) (start n i : Nat) :
    (b.slice start n)[i]? = if i < n then b[start + i]? else none := by
  simp only [slice, List.getElem?_take, List.getElem?_drop]

theorem slice_zero_of_le {b : Bytes} {n : Nat} (h : b.length ≤ n) : b.slice 0 n = b := by
  rw [slice, List.drop_zero, List.take_of_length_le h]

/-- What was put in place is there. -/
theorem slice_overwrite_self {b data : Bytes} {start : Nat} (h : start + data.length ≤ b.length) :
    (b.overwrite start data).slice start data.length = data := by
  apply List.ext_getElem?
  intro i
  rw [getElem?_slice, getElem?_overwrite]
  by_cases hi : i < data.length
  · rw [if_pos hi, if_pos ⟨by omega, by omega, by omega⟩, Nat.add_sub_cancel_left]
  · rw [if_neg hi, List.getElem?_eq_none (by omega)]

/-- What lies beside the place is untouched. -/
theorem slice_overwrite_of_disjoint {b data : Bytes} {start start' n : Nat}
    (h : start' + n ≤ start ∨ start + data.length ≤ start') :
    (b.overwrite start data).slice start' n = b.slice start' n := by
  apply List.ext_getElem?
  intro i
  rw [getElem?_slice, getElem?_slice, getElem?_overwrite]
  by_cases hi : i < n
  · rw [if_pos hi, if_pos hi, if_neg (by omega)]
  · rw [if_neg hi, if_neg hi]

end Bytes

/-! ## Ranges -/

namespace ChunkRange

variable (size : UInt64) (i j : ChunkIndex)

theorem toNat_start : (ofIndex size i).start.toNat = size.toNat / 8 * i.val := by
  have hsize := size.toNat_lt
  have hi : i.val < 8 := i.isLt
  have hle : size.toNat / 8 * i.val ≤ size.toNat / 8 * 8 := Nat.mul_le_mul_left _ (by omega)
  have hval : (UInt64.ofNat i.val).toNat = i.val := by
    rw [UInt64.toNat_ofNat', Nat.mod_eq_of_lt (by omega)]
  simp only [ofIndex, UInt64.toNat_mul, UInt64.toNat_div, hval]
  exact Nat.mod_eq_of_lt (by simp only [UInt64.reduceToNat]; omega)

theorem toNat_stop : (ofIndex size i).stop.toNat =
    if i.val = 7 then size.toNat else size.toNat / 8 * (i.val + 1) := by
  have hsize := size.toNat_lt
  have hi : i.val < 8 := i.isLt
  have hstart := toNat_start size i
  by_cases h : i.val = 7
  · simp [ofIndex, h]
  · have hle : size.toNat / 8 * (i.val + 1) ≤ size.toNat / 8 * 8 := Nat.mul_le_mul_left _ (by omega)
    simp only [ofIndex] at hstart
    simp only [ofIndex, h, if_false, UInt64.toNat_add, hstart, UInt64.toNat_div, Nat.mul_add,
      Nat.mul_one, UInt64.reduceToNat] at *
    exact Nat.mod_eq_of_lt (by omega)

theorem start_le_stop : (ofIndex size i).start.toNat ≤ (ofIndex size i).stop.toNat := by
  have hi : i.val < 8 := i.isLt
  have hle : size.toNat / 8 * i.val ≤ size.toNat / 8 * 7 := Nat.mul_le_mul_left _ (by omega)
  rw [toNat_start, toNat_stop]
  split
  · omega
  · rw [Nat.mul_add]
    omega

theorem toNat_length : (ofIndex size i).length.toNat =
    (ofIndex size i).stop.toNat - (ofIndex size i).start.toNat :=
  UInt64.toNat_sub_of_le _ _ (UInt64.le_iff_toNat_le.2 (start_le_stop size i))

theorem stop_le_size : (ofIndex size i).stop.toNat ≤ size.toNat := by
  have hi : i.val < 8 := i.isLt
  rw [toNat_stop]
  split
  · exact Nat.le_refl _
  · have hle : size.toNat / 8 * (i.val + 1) ≤ size.toNat / 8 * 8 :=
      Nat.mul_le_mul_left _ (by omega)
    omega

theorem start_add_length :
    (ofIndex size i).start.toNat + (ofIndex size i).length.toNat = (ofIndex size i).stop.toNat := by
  have := start_le_stop size i
  rw [toNat_length]
  omega

/-- Of two chunks one ends before the other begins. -/
theorem stop_le_start_of_lt {i j : ChunkIndex} (h : i < j) :
    (ofIndex size i).stop.toNat ≤ (ofIndex size j).start.toNat := by
  have hj : j.val < 8 := j.isLt
  have hlt : i.val < j.val := h
  rw [toNat_stop, toNat_start, if_neg (by omega)]
  exact Nat.mul_le_mul_left _ hlt

/-- Every offset in a file lies in a chunk. -/
theorem exists_mem_range {k : Nat} (h : k < size.toNat) :
    ∃ i, (ofIndex size i).start.toNat ≤ k ∧ k < (ofIndex size i).stop.toNat := by
  by_cases hlast : size.toNat / 8 * 7 ≤ k
  · refine ⟨7, ?_, ?_⟩
    · rw [toNat_start]
      exact hlast
    · rw [toNat_stop]
      exact h
  · have hpos : 0 < size.toNat / 8 := Nat.pos_of_ne_zero fun h0 => hlast (by omega)
    have hlt : k / (size.toNat / 8) < 7 :=
      (Nat.div_lt_iff_lt_mul hpos).2 (by rw [Nat.mul_comm]; omega)
    have hdiv := Nat.div_add_mod k (size.toNat / 8)
    have hmod := Nat.mod_lt k hpos
    refine ⟨⟨k / (size.toNat / 8), Nat.lt_succ_of_lt hlt⟩, ?_, ?_⟩
    · rw [toNat_start]
      exact Nat.mul_div_le k _
    · rw [toNat_stop, if_neg (Nat.ne_of_lt hlt), Nat.mul_add]
      show k < size.toNat / 8 * (k / (size.toNat / 8)) + size.toNat / 8 * 1
      omega

end ChunkRange

/-! ## The chunks of a content -/

namespace Descriptor

variable {d : Descriptor} {b data : Bytes} {i j : ChunkIndex}

/-- The range of a chunk. -/
def range (d : Descriptor) (i : ChunkIndex) : ChunkRange := .ofIndex d.size i

/-- Chunk `i` of a content. -/
def chunkOf (d : Descriptor) (b : Bytes) (i : ChunkIndex) : Bytes :=
  b.slice (d.range i).start.toNat (d.range i).length.toNat

/-- Chunk `i` of a content has the declared hash. -/
def Matches (d : Descriptor) (b : Bytes) (i : ChunkIndex) : Prop :=
  .ofContent (d.chunkOf b i) = d.chunkHashes.get i

theorem chunkRange?_of_eq {index : Nat} (h : index = i.val) :
    d.chunkRange? index = some (d.range i) := by
  rw [chunkRange?, ChunkRange.ofIndex?, h, dif_pos i.isLt]
  rfl

theorem start_add_length (d : Descriptor) (i : ChunkIndex) :
    (d.range i).start.toNat + (d.range i).length.toNat = (d.range i).stop.toNat :=
  ChunkRange.start_add_length d.size i

theorem stop_le_start (d : Descriptor) (h : i < j) :
    (d.range i).stop.toNat ≤ (d.range j).start.toNat :=
  ChunkRange.stop_le_start_of_lt d.size h

theorem exists_mem_range (d : Descriptor) {k : Nat} (h : k < d.size.toNat) :
    ∃ i, (d.range i).start.toNat ≤ k ∧ k < (d.range i).stop.toNat :=
  ChunkRange.exists_mem_range d.size h

theorem range_le (d : Descriptor) (i : ChunkIndex) :
    (d.range i).start.toNat + (d.range i).length.toNat ≤ d.size.toNat := by
  rw [d.start_add_length]
  exact ChunkRange.stop_le_size d.size i

theorem length_chunkOf (h : b.length = d.size.toNat) (i : ChunkIndex) :
    (d.chunkOf b i).length = (d.range i).length.toNat := by
  have := d.range_le i
  rw [chunkOf, Bytes.length_slice]
  omega

/-- The length of the last chunk, which takes what the others leave over. -/
def largestChunk (b : Bytes) : Nat := b.length / chunkCount + b.length % chunkCount

theorem length_chunkOf_last (h : b.length = d.size.toNat) (hi : i.val = 7) :
    (d.chunkOf b i).length = largestChunk b := by
  have hadd := ChunkRange.start_add_length d.size i
  rw [ChunkRange.toNat_start, ChunkRange.toNat_stop, if_pos hi, hi] at hadd
  rw [length_chunkOf h, range, largestChunk, h]
  show _ = d.size.toNat / 8 + d.size.toNat % 8
  omega

theorem length_chunkOf_le (h : b.length = d.size.toNat) (i : ChunkIndex) :
    (d.chunkOf b i).length ≤ largestChunk b := by
  by_cases hi : i.val = 7
  · exact Nat.le_of_eq (length_chunkOf_last h hi)
  · have hadd := ChunkRange.start_add_length d.size i
    rw [ChunkRange.toNat_start, ChunkRange.toNat_stop, if_neg hi, Nat.mul_add] at hadd
    rw [length_chunkOf h, range, largestChunk, h]
    show _ ≤ d.size.toNat / 8 + d.size.toNat % 8
    omega

theorem chunkOf_overwrite_self (h : b.length = d.size.toNat)
    (hdata : data.length = (d.range i).length.toNat) :
    d.chunkOf (b.overwrite (d.range i).start.toNat data) i = data := by
  have hle := d.range_le i
  rw [chunkOf, ← hdata]
  exact Bytes.slice_overwrite_self (by omega)

/-- Replacing a chunk leaves the others alone. -/
theorem chunkOf_overwrite_of_ne (hij : i ≠ j) (hdata : data.length = (d.range i).length.toNat) :
    d.chunkOf (b.overwrite (d.range i).start.toNat data) j = d.chunkOf b j := by
  have hi := d.start_add_length i
  have hj := d.start_add_length j
  apply Bytes.slice_overwrite_of_disjoint
  rcases Nat.lt_or_gt_of_ne (Fin.val_ne_of_ne hij) with hlt | hgt
  · have := d.stop_le_start (i := i) (j := j) hlt
    omega
  · have := d.stop_le_start (i := j) (j := i) hgt
    omega

/-- Contents of the declared size with the same chunks are the same. -/
theorem eq_of_chunkOf_eq {b c : Bytes} (hb : b.length = d.size.toNat) (hc : c.length = d.size.toNat)
    (h : ∀ i, d.chunkOf b i = d.chunkOf c i) : b = c := by
  apply List.ext_getElem?
  intro k
  by_cases hk : k < d.size.toNat
  · obtain ⟨i, hstart, hstop⟩ := d.exists_mem_range hk
    have hlen := d.start_add_length i
    have hk' : k - (d.range i).start.toNat < (d.range i).length.toNat := by omega
    have hat := congrArg (·[k - (d.range i).start.toNat]?) (h i)
    simp only [chunkOf, Bytes.getElem?_slice, if_pos hk', Nat.add_sub_cancel' hstart] at hat
    exact hat
  · rw [List.getElem?_eq_none (by omega), List.getElem?_eq_none (by omega)]

theorem Matches.congr {d' : Descriptor} (h : d.Matches b i) (hs : d'.size = d.size)
    (hh : d'.chunkHashes = d.chunkHashes) : d'.Matches b i := by
  rw [Matches, chunkOf, range, hs, hh]
  exact h

/-! ### The descriptor of a content -/

theorem size_ofContent (name : String) {c : Bytes} (h : c.length < 2 ^ 64) :
    (ofContent name c).size.toNat = c.length := by
  rw [ofContent, UInt64.toNat_ofNat', Nat.mod_eq_of_lt h]

/-- A content matches its descriptor. -/
theorem matches_ofContent (name : String) (c : Bytes) (i : ChunkIndex) :
    (ofContent name c).Matches c i := by
  have hget {f : ChunkIndex → ContentHash} : (Vector.ofFn f).get i = f i :=
    Vector.getElem_ofFn i.isLt
  rw [Matches, ofContent, hget]
  rfl

end Descriptor

/-! ## Sets of chunks -/

namespace VerifiedChunks

@[simp] theorem has_all (i : ChunkIndex) : all.has i = true := by
  revert i
  decide

theorem toNat_bit (i : ChunkIndex) : (1 <<< UInt8.ofNat i.val : UInt8).toNat = 2 ^ i.val := by
  revert i
  decide

theorem has_eq_testBit (v : VerifiedChunks) (i : ChunkIndex) :
    v.has i = v.bits.toNat.testBit i.val := by
  have hi : i.val < 8 := i.isLt
  have hand : (v.bits &&& (1 <<< UInt8.ofNat i.val)).toNat =
      (v.bits.toNat.testBit i.val).toNat * 2 ^ i.val := by
    rw [UInt8.toNat_and, toNat_bit, Nat.and_two_pow]
  rw [has, decide_eq_true hi, Bool.true_and]
  cases hv : v.bits.toNat.testBit i.val
  · rw [hv, Bool.toNat_false, Nat.zero_mul] at hand
    simp [UInt8.toNat_inj.1 (hand.trans UInt8.toNat_zero.symm)]
  · rw [hv, Bool.toNat_true, Nat.one_mul] at hand
    rw [bne_iff_ne]
    intro h0
    rw [h0] at hand
    exact absurd hand.symm (Nat.two_pow_pos _).ne'

theorem has_set (v : VerifiedChunks) (i j : ChunkIndex) :
    (v.set i).has j = (decide (i = j) || v.has j) := by
  rw [has_eq_testBit, has_eq_testBit, set, if_pos i.isLt]
  simp only [UInt8.toNat_or, toNat_bit, Nat.testBit_or, Nat.testBit_two_pow, Bool.or_comm,
    Fin.ext_iff]

/-- Sets with the same chunks are the same. -/
theorem ext_has {v w : VerifiedChunks} (h : ∀ i : ChunkIndex, v.has i = w.has i) : v = w := by
  have hbits : v.bits.toNat = w.bits.toNat := by
    apply Nat.eq_of_testBit_eq
    intro k
    by_cases hk : k < chunkCount
    · have hi := h ⟨k, hk⟩
      rw [has_eq_testBit, has_eq_testBit] at hi
      exact hi
    · have h8 : 8 ≤ k := Nat.le_of_not_lt hk
      have hpow : 2 ^ 8 ≤ 2 ^ k := Nat.pow_le_pow_right (by decide) h8
      have hv := v.bits.toNat_lt
      have hw := w.bits.toNat_lt
      rw [Nat.testBit_lt_two_pow (by omega), Nat.testBit_lt_two_pow (by omega)]
  exact congrArg mk (UInt8.toNat_inj.1 hbits)

/-- A complete set has every chunk. -/
theorem isComplete_iff (v : VerifiedChunks) : v.isComplete = true ↔ ∀ i : ChunkIndex, v.has i := by
  constructor
  · intro h i
    rw [eq_of_beq h]
    exact has_all i
  · intro h
    refine beq_iff_eq.2 (ext_has ?_)
    intro i
    rw [h i, has_all]

theorem has_foldl_set (p : ChunkIndex → Bool) (l : List ChunkIndex) (v : VerifiedChunks)
    (j : ChunkIndex) : (l.foldl (fun v i => if p i then v.set i else v) v).has j =
      (v.has j || (decide (j ∈ l) && p j)) := by
  induction l generalizing v with
  | nil => simp
  | cons i l ih =>
    rw [List.foldl_cons, ih]
    by_cases hij : i = j
    · subst hij
      cases hp : p i <;> simp [has_set]
    · cases hp : p i <;> simp [has_set, hij, Ne.symm hij]

theorem mem_chunkIndex_all (i : ChunkIndex) : i ∈ ChunkIndex.all := List.mem_finRange i

@[simp] theorem has_ofPredicate (p : ChunkIndex → Bool) (i : ChunkIndex) :
    (ofPredicate p).has i = p i := by
  rw [ofPredicate, has_foldl_set, has_none, decide_eq_true (mem_chunkIndex_all i)]
  simp

end VerifiedChunks

end FileMesh
