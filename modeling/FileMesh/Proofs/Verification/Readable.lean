import FileMesh.Proofs.Verification

/-!
# Chunks that can be read

A check at a path that does not find the whole file in place looks at one chunk after the other and
stops at the first that cannot be read. The check of a single chunk reads that chunk alone. Reading
fails for a chunk whose beginning cannot be sought or whose end lies behind the end of the file. It
then fails for every later chunk too: one that could be read would have to be empty, and empty
chunks lie at the beginning of the file. Stopping hides nothing.
-/

namespace FileMesh

namespace Descriptor

variable {d : Descriptor} {b : Bytes} {i : ChunkIndex}

/-- The beginning of chunk `i` can be sought, and the chunk ends in the bytes `b`. -/
def Readable (d : Descriptor) (b : Bytes) (i : ChunkIndex) : Prop :=
  (d.range i).start.toNat ≤ Disk.largestOffset ∧ (d.range i).stop.toNat ≤ b.length

instance : Decidable (d.Readable b i) := inferInstanceAs (Decidable (_ ∧ _))

/-- An empty chunk is at the beginning of the file: it is one of a file of less than eight bytes. -/
theorem start_eq_zero_of_length_eq_zero (h : (d.range i).length.toNat = 0) :
    (d.range i).start.toNat = 0 := by
  have hadd : (d.range i).start.toNat = (d.range i).stop.toNat := by
    rw [← d.start_add_length i, h, Nat.add_zero]
  have hstart : (d.range i).start.toNat = d.size.toNat / 8 * i.val :=
    ChunkRange.toNat_start d.size i
  have hstop : (d.range i).stop.toNat = if i.val = 7 then d.size.toNat
      else d.size.toNat / 8 * (i.val + 1) := ChunkRange.toNat_stop d.size i
  rw [hstart, hstop] at hadd
  rw [hstart]
  by_cases hlast : i.val = 7
  · rw [if_pos hlast, hlast] at hadd
    rw [hlast]
    omega
  · rw [if_neg hlast, Nat.mul_add, Nat.mul_one] at hadd
    have hbase : d.size.toNat / 8 = 0 := by omega
    rw [hbase, Nat.zero_mul]

/-- From the beginning of a chunk on there is enough left of `n` bytes just when the chunk ends
within them. -/
theorem length_le_iff_stop_le (n : Nat) :
    (d.range i).length.toNat ≤ n - (d.range i).start.toNat ↔ (d.range i).stop.toNat ≤ n := by
  have hadd := d.start_add_length i
  by_cases h0 : (d.range i).length.toNat = 0
  · -- Nothing is always left; but a chunk without bytes does not lie behind the end.
    have hstart := start_eq_zero_of_length_eq_zero h0
    omega
  · omega

end Descriptor

/-- A mask has no bit for a number that names no chunk. -/
theorem VerifiedChunks.testBit_of_le (v : VerifiedChunks) {index : Nat} (h : chunkCount ≤ index) :
    v.bits.toNat.testBit index = false := by
  have hpow : 2 ^ chunkCount ≤ 2 ^ index := Nat.pow_le_pow_right (by decide) h
  exact Nat.testBit_lt_two_pow (Nat.lt_of_lt_of_le v.bits.toNat_lt hpow)

namespace Entry

variable {disk : Disk} {e : Entry} {d : Descriptor} {i : ChunkIndex} {id : FileId}

/-! ## Reading one chunk -/

/-- There is a hash of a chunk just when the chunk can be read. -/
theorem hashChunk_eq_ok_iff_readable {h : ContentHash} :
    hashChunk disk (.file id) d i = .ok h ↔
      d.Readable (disk.content id) i ∧ h = .ofContent (d.chunkOf (disk.content id) i) := by
  rw [hashChunk_eq_ok_iff, d.length_le_iff_stop_le, Descriptor.Readable, and_assoc]

/-- Reading a chunk fails if its beginning cannot be sought, and else if it ends behind the file. -/
theorem hashChunk_eq_error_iff {cause : IoError} :
    hashChunk disk (.file id) d i = .error cause ↔
      Disk.largestOffset < (d.range i).start.toNat ∧ cause = .badOffset ∨
        (d.range i).start.toNat ≤ Disk.largestOffset ∧
          (disk.content id).length < (d.range i).stop.toNat ∧ cause = .shortRead := by
  have hlength := d.length_le_iff_stop_le (i := i) (disk.content id).length
  show disk.hashRange (.file id) (d.range i).start.toNat (d.range i).length.toNat = _ ↔ _
  rw [Disk.hashRange]
  by_cases hseek : Disk.largestOffset < (d.range i).start.toNat
  · rw [if_pos hseek]
    simp [hseek, Nat.not_le.2 hseek, eq_comm]
  · rw [if_neg hseek]
    by_cases hstop : (d.range i).stop.toNat ≤ (disk.content id).length
    · rw [ContentHash.ofRange_of_le (hlength.2 hstop)]
      simp [Except.map, hseek, Nat.not_lt.2 hstop]
    · rw [ContentHash.ofRange_of_lt (Nat.lt_of_not_le (mt hlength.1 hstop))]
      simp [Except.map, hseek, Nat.le_of_not_lt hseek, Nat.lt_of_not_le hstop, eq_comm]

/-! ## All chunks -/

/-- The check of what is at the path of an entry finds the whole file and looks at no chunk. -/
def TakesWhole (disk : Disk) (e : Entry) : Prop :=
  ∃ path kind, e.path = some path ∧ disk.openToRead path = .ok kind ∧
    matchesWhole disk kind e.descriptor = true

theorem wholeMatches_iff_takesWhole (hm : e.mapping = none) :
    e.WholeMatches disk ↔ e.TakesWhole disk := by
  simp only [WholeMatches, hm, TakesWhole, matchesWhole_iff]
  constructor
  · rintro ⟨path, id, hp, ho, hw⟩
    exact ⟨path, .file id, hp, ho, id, rfl, hw⟩
  · rintro ⟨path, _, hp, ho, id, rfl, hw⟩
    exact ⟨path, id, hp, ho, hw⟩

theorem verifyChunk_iff_readable {path : String} (hm : e.mapping = none) (hp : e.path = some path)
    (ho : disk.openToRead path = .ok (.file id)) : e.verifyChunk disk i = true ↔
      e.descriptor.Readable (disk.content id) i ∧ e.descriptor.Matches (disk.content id) i := by
  rw [verifyChunk_iff_of_path hm hp, ho]
  simp only [Except.ok.injEq, exists_eq_left', hashChunk_eq_ok_iff_readable]
  exact and_congr_right fun _ => eq_comm

/-- The mask of a check that looks at the chunks has the bit of a chunk just when the check of that
chunk alone finds it. -/
theorem testBit_verify_of_not_wholeMatches (hw : ¬ e.WholeMatches disk) (index : Nat) :
    (e.verify disk).bits.toNat.testBit index = e.verifyChunk disk index := by
  by_cases hindex : index < chunkCount
  · have hbit := VerifiedChunks.has_eq_testBit (e.verify disk) ⟨index, hindex⟩
    rw [← hbit, Bool.eq_iff_iff, has_verify, or_iff_right hw]
  · rw [VerifiedChunks.testBit_of_le _ (Nat.le_of_not_lt hindex),
      verifyChunk_of_le (Nat.le_of_not_lt hindex)]

/-- Let an entry not be mapped, and let its check not find the whole file in place. Then the mask
that the check gives has exactly the bits of the chunks that are found one by one, although the
check stops at the first chunk that cannot be read. Whatever is in the file and whatever size is
declared, a chunk alone is found just when it can be read and has its declared hash. Reading fails
for no other reason than that the beginning of the chunk cannot be sought or that its end lies
behind the end of the file, and when it fails for a chunk it fails for every later one. -/
theorem testBit_verify_eq_verifyChunk (hm : e.mapping = none) (hw : ¬ e.TakesWhole disk) :
    (∀ index : Nat,
      (e.verify disk).bits.toNat.testBit index = e.verifyChunk disk index) ∧
    ∀ (path : String) (id : FileId), e.path = some path →
      disk.openToRead path = .ok (.file id) →
      (∀ i : ChunkIndex, e.verifyChunk disk i = true ↔
        e.descriptor.Readable (disk.content id) i ∧ e.descriptor.Matches (disk.content id) i) ∧
      (∀ (i : ChunkIndex) (cause : IoError),
        hashChunk disk (.file id) e.descriptor i = .error cause ↔
          Disk.largestOffset < (e.descriptor.range i).start.toNat ∧ cause = .badOffset ∨
            (e.descriptor.range i).start.toNat ≤ Disk.largestOffset ∧
              (disk.content id).length < (e.descriptor.range i).stop.toNat ∧
              cause = .shortRead) ∧
      ∀ i j : ChunkIndex, i < j →
        (∃ cause, hashChunk disk (.file id) e.descriptor i = .error cause) →
        ∃ cause, hashChunk disk (.file id) e.descriptor j = .error cause := by
  rw [← wholeMatches_iff_takesWhole hm] at hw
  refine ⟨testBit_verify_of_not_wholeMatches hw, fun path id hp ho => ⟨?_, ?_, ?_⟩⟩
  · intro i
    exact verifyChunk_iff_readable hm hp ho
  · intro i cause
    exact hashChunk_eq_error_iff
  · rintro i j hij ⟨cause, hi⟩
    have hno (h : ContentHash) : hashChunk disk (.file id) e.descriptor i ≠ .ok h := by simp [hi]
    cases hj : hashChunk disk (.file id) e.descriptor j with
    | error cause' => exact ⟨cause', rfl⟩
    | ok h => exact absurd hj (hashChunk_ne_ok_of_lt hij hno h)

/-- The descriptor of a file of `size` bytes of which every chunk is declared to have the hash of
`n` zeros. -/
def ofZeros (size : UInt64) (n : Nat) : Descriptor :=
  ⟨"f", .zero, Vector.replicate _ (.ofContent (Bytes.zeros n)), size⟩

theorem matches_ofZeros {size : UInt64} {n : Nat} {b : Bytes}
    (h : (ofZeros size n).chunkOf b i = Bytes.zeros n) : (ofZeros size n).Matches b i := by
  have hget : (ofZeros size n).chunkHashes.get i = .ofContent (Bytes.zeros n) :=
    Vector.getElem_replicate i.isLt
  rw [Descriptor.Matches, h, hget]

/-- In a file of 13 zeros the first six chunks of 20 bytes are found and the seventh is cut into; of
the chunks of the largest file none is found. In a file of three zeros the empty chunks of seven
bytes are found and the last is cut into. -/
theorem testBit_verify_eq_verifyChunk_cut : ∃ disk : Disk,
    disk.openToRead "f" = .ok (.file 0) ∧ disk.content 0 = Bytes.zeros 13 ∧
    disk.openToRead "g" = .ok (.file 1) ∧ disk.content 1 = Bytes.zeros 3 ∧
    ∀ index : Nat,
      ((ofFile (ofZeros 20 2) "f").verify disk).bits.toNat.testBit index = decide (index < 6) ∧
      ((ofFile (ofZeros 0xFFFFFFFFFFFFFFFF 0) "f").verify disk).bits.toNat.testBit index = false ∧
      ((ofFile (ofZeros 7 0) "g").verify disk).bits.toNat.testBit index = decide (index < 7) := by
  obtain ⟨disk, hf, hfile, hg, hsmall⟩ : ∃ disk : Disk,
      disk.openToRead "f" = .ok (.file 0) ∧ disk.content 0 = Bytes.zeros 13 ∧
      disk.openToRead "g" = .ok (.file 1) ∧ disk.content 1 = Bytes.zeros 3 :=
    ⟨⟨[(["g"], .file 1), (["f"], .file 0)], [.ofBytes (Bytes.zeros 13), .ofBytes (Bytes.zeros 3)],
      [], .pageCounting⟩, rfl, by decide, rfl, by decide⟩
  have hmask {size : UInt64} {n k : Nat} {path : String} {id : FileId}
      (ho : disk.openToRead path = .ok (.file id))
      (hlength : (disk.content id).length ≠ size.toNat) (hk : k ≤ chunkCount)
      (hread : ∀ i : ChunkIndex, (ofZeros size n).Readable (disk.content id) i ↔ i.val < k)
      (hzeros : ∀ i : ChunkIndex, i.val < k →
        (ofZeros size n).chunkOf (disk.content id) i = Bytes.zeros n) (index : Nat) :
      ((ofFile (ofZeros size n) path).verify disk).bits.toNat.testBit index =
        decide (index < k) := by
    have hw : ¬ (ofFile (ofZeros size n) path).TakesWhole disk := by
      rw [← wholeMatches_iff_takesWhole rfl]
      rintro ⟨_, id', ⟨⟩, ho', hlength', -⟩
      obtain rfl : id = id' := by simpa [ho] using ho'
      exact hlength hlength'
    obtain ⟨hsame, hsingle⟩ := testBit_verify_eq_verifyChunk rfl hw
    obtain ⟨halone, -⟩ := hsingle path id rfl ho
    rw [hsame, Bool.eq_iff_iff, decide_eq_true_iff]
    constructor
    · intro hv
      let i : ChunkIndex := ⟨index, lt_of_verifyChunk hv⟩
      exact (hread i).1 ((halone i).1 hv).1
    · intro hindex
      let i : ChunkIndex := ⟨index, Nat.lt_of_lt_of_le hindex hk⟩
      exact (halone i).2 ⟨(hread i).2 hindex, matches_ofZeros (hzeros i hindex)⟩
  refine ⟨disk, hf, hfile, hg, hsmall, fun index => ⟨?_, ?_, ?_⟩⟩
  · refine hmask hf ?_ (by decide) ?_ ?_ index <;> rw [hfile] <;> decide
  · have hnone : decide (index < 0) = false := decide_eq_false (Nat.not_lt_zero index)
    rw [← hnone]
    refine hmask hf ?_ (by decide) ?_ ?_ index <;> rw [hfile] <;> decide
  · refine hmask hg ?_ (by decide) ?_ ?_ index <;> rw [hsmall] <;> decide

end Entry

end FileMesh
