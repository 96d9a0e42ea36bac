import FileMesh.Entry
import FileMesh.Proofs.Hashing

/-!
# What verifying says

A check looks at the whole file first and at the chunks one by one otherwise, in the mapping or else
at the path. Both routes come to the same: a chunk counts as verified if the whole file matches or
the chunk alone does.
-/

namespace FileMesh

theorem ChunkRange.length_le_length_of_lt (size : UInt64) {i j : ChunkIndex} (h : i < j) :
    (ofIndex size i).length.toNat ≤ (ofIndex size j).length.toNat := by
  have hj : j.val < 8 := j.isLt
  have hlt : i.val < j.val := h
  have hi := start_add_length size i
  have hj' := start_add_length size j
  rw [toNat_start, toNat_stop, if_neg (by omega), Nat.mul_add] at hi
  rw [toNat_start, toNat_stop] at hj'
  split at hj'
  · rename_i h7
    rw [h7] at hj'
    omega
  · rw [Nat.mul_add] at hj'
    omega

theorem toOption_eq_some_iff {ε α : Type} {x : Except ε α} {a : α} :
    x.toOption = some a ↔ x = .ok a := by
  cases x <;> simp [Except.toOption]

/-! ## What a check depends on -/

namespace Disk

/-- What is read at a path is the same on two disks. -/
structure SameRead (d d' : Disk) (path : String) : Prop where
  openToRead : d'.openToRead path = d.openToRead path
  content : ∀ id, d.openToRead path = .ok (.file id) → d'.content id = d.content id

variable {d d' : Disk} {path : String} {kind : NodeKind}

theorem SameRead.sizeOf (h : d.SameRead d' path) (ho : d.openToRead path = .ok kind) :
    d'.sizeOf kind = d.sizeOf kind := by
  cases kind with
  | directory => rfl
  | file id => rw [Disk.sizeOf, Disk.sizeOf, ← length_content, ← length_content, h.content id ho]

theorem SameRead.hashRange (h : d.SameRead d' path) (ho : d.openToRead path = .ok kind)
    (offset length : Nat) : d'.hashRange kind offset length = d.hashRange kind offset length := by
  cases kind with
  | directory => rfl
  | file id => rw [Disk.hashRange, Disk.hashRange, h.content id ho]

end Disk

namespace Entry

variable {disk disk' : Disk} {e : Entry} {d : Descriptor} {i j : ChunkIndex}

theorem hashChunk_of_sameRead {path : String} {kind : NodeKind} (h : disk.SameRead disk' path)
    (ho : disk.openToRead path = .ok kind) (d : Descriptor) :
    hashChunk disk' kind d = hashChunk disk kind d :=
  funext fun _ => h.hashRange ho _ _

theorem verifyPath_of_sameRead {path : String} (h : disk.SameRead disk' path) (d : Descriptor) :
    verifyPath disk' d path = verifyPath disk d path := by
  rw [verifyPath, verifyPath, h.openToRead]
  cases ho : disk.openToRead path with
  | error cause => rfl
  | ok kind =>
    have hwhole : matchesWhole disk' kind d = matchesWhole disk kind d := by
      rw [matchesWhole, matchesWhole, h.sizeOf ho, h.hashRange ho]
    simp only [hwhole, hashChunk_of_sameRead h ho]

section

variable (hm : e.mapping = none) (h : ∀ path, e.path = some path → disk.SameRead disk' path)
include hm h

theorem verify_of_sameRead : e.verify disk' = e.verify disk := by
  rw [verify, verify, hm]
  cases hp : e.path with
  | none => rfl
  | some path => exact verifyPath_of_sameRead (h path hp) e.descriptor

theorem currentHash?_of_sameRead (i : ChunkIndex) :
    e.currentHash? disk' i = e.currentHash? disk i := by
  rw [currentHash?, currentHash?, hm]
  cases hp : e.path with
  | none => rfl
  | some path =>
    show ((disk'.openToRead path).toOption.bind fun kind =>
        (hashChunk disk' kind e.descriptor i).toOption) =
      (disk.openToRead path).toOption.bind fun kind => (hashChunk disk kind e.descriptor i).toOption
    rw [(h path hp).openToRead]
    cases ho : disk.openToRead path with
    | error cause => rfl
    | ok kind =>
      show (hashChunk disk' kind e.descriptor i).toOption =
        (hashChunk disk kind e.descriptor i).toOption
      rw [hashChunk_of_sameRead (h path hp) ho]

theorem verifyChunk_of_sameRead (index : Nat) :
    e.verifyChunk disk' index = e.verifyChunk disk index := by
  rw [verifyChunk, verifyChunk]
  split
  · rw [currentHash?_of_sameRead hm h]
  · rfl

end

/-- The bytes of a chunk: in the mapping, or else at the path if the range can be read there. -/
def chunk? (disk : Disk) (e : Entry) (i : ChunkIndex) : Option Bytes :=
  let r := e.descriptor.range i
  match e.mapping with
  | some id => some (rangeOf (disk.file id) r)
  | none =>
    match e.path.map disk.openToRead with
    | some (.ok (.file id)) =>
      if r.start.toNat ≤ Disk.largestOffset ∧
        r.length.toNat ≤ (disk.content id).length - r.start.toNat
      then some (e.descriptor.chunkOf (disk.content id) i) else none
    | some (.ok .directory) => if r.length.toNat = 0 then some [] else none
    | _ => none

/-- The file has the declared size and the declared hash. A mapping always has the size. -/
def WholeMatches (disk : Disk) (e : Entry) : Prop :=
  match e.mapping with
  | some id => .ofContent ((disk.file id).mapped e.size) = e.descriptor.hash
  | none => ∃ path id, e.path = some path ∧ disk.openToRead path = .ok (.file id) ∧
      (disk.content id).length = e.size ∧ .ofContent (disk.content id) = e.descriptor.hash

/-! ## One chunk -/

theorem hashChunk_eq_ok_iff {id : FileId} {h : ContentHash} :
    hashChunk disk (.file id) d i = .ok h ↔
      (d.range i).start.toNat ≤ Disk.largestOffset ∧
        (d.range i).length.toNat ≤ (disk.content id).length - (d.range i).start.toNat ∧
          h = .ofContent (d.chunkOf (disk.content id) i) :=
  disk.hashRange_file id _ _ h

theorem hashChunk_directory_eq_ok_iff {h : ContentHash} :
    hashChunk disk .directory d i = .ok h ↔
      (d.range i).length.toNat = 0 ∧ h = .ofContent [] := by
  show (if (d.range i).length.toNat = 0 then _ else _) = _ ↔ _
  split
  · rename_i h0
    simp [h0, eq_comm]
  · rename_i h0
    simp [h0]

theorem currentHash?_eq (disk : Disk) (e : Entry) (i : ChunkIndex) :
    e.currentHash? disk i = (e.chunk? disk i).map .ofContent := by
  rw [currentHash?, chunk?]
  cases e.mapping with
  | some id => rfl
  | none =>
    cases e.path with
    | none => rfl
    | some path =>
      show (disk.openToRead path).toOption.bind
        (fun kind => (hashChunk disk kind e.descriptor i).toOption) = _
      simp only [Option.map_some]
      cases disk.openToRead path with
      | error cause => rfl
      | ok kind =>
        show (hashChunk disk kind e.descriptor i).toOption = _
        ext h
        rw [toOption_eq_some_iff]
        cases kind with
        | directory =>
          rw [hashChunk_directory_eq_ok_iff]
          by_cases h0 : (e.descriptor.range i).length.toNat = 0 <;> simp [h0, eq_comm]
        | file id =>
          rw [hashChunk_eq_ok_iff]
          dsimp only
          split
          · rename_i hr
            simp [hr, eq_comm]
          · rename_i hr
            simp only [Option.map_none, reduceCtorEq, iff_false]
            exact fun hc => hr ⟨hc.1, hc.2.1⟩

/-- A chunk is verified alone if its bytes can be read and have the declared hash. -/
theorem verifyChunk_iff (i : ChunkIndex) : e.verifyChunk disk i = true ↔
    ∃ b, e.chunk? disk i = some b ∧ .ofContent b = e.descriptor.chunkHashes.get i := by
  rw [verifyChunk, dif_pos i.isLt, decide_eq_true_iff, currentHash?_eq, Option.map_eq_some_iff]
  rfl

theorem verifyChunk_of_le {index : Nat} (h : chunkCount ≤ index) :
    e.verifyChunk disk index = false := by
  rw [verifyChunk, dif_neg (Nat.not_lt.2 h)]

theorem lt_of_verifyChunk {index : Nat} (h : e.verifyChunk disk index = true) :
    index < chunkCount := by
  by_contra hle
  rw [verifyChunk_of_le (Nat.le_of_not_lt hle)] at h
  cases h

/-- A chunk that is verified without a mapping is read at a path. -/
theorem exists_openToRead_of_verifyChunk (hm : e.mapping = none)
    (h : e.verifyChunk disk i = true) :
    ∃ path kind, e.path = some path ∧ disk.openToRead path = .ok kind := by
  obtain ⟨b, hb, -⟩ := (verifyChunk_iff i).1 h
  rw [chunk?, hm] at hb
  cases hp : e.path with
  | none =>
    rw [hp] at hb
    cases hb
  | some path =>
    cases ho : disk.openToRead path with
    | error cause =>
      rw [hp] at hb
      simp only [Option.map_some, ho, reduceCtorEq] at hb
    | ok kind => exact ⟨path, kind, rfl, ho⟩

/-! ## All chunks -/

/-- When a chunk cannot be read, no later one can. -/
theorem hashChunk_ne_ok_of_lt {kind : NodeKind} (hij : i < j)
    (hi : ∀ h, hashChunk disk kind d i ≠ .ok h) (h : ContentHash) :
    hashChunk disk kind d j ≠ .ok h := by
  intro hj
  have hlen : (d.range i).length.toNat ≤ (d.range j).length.toNat :=
    ChunkRange.length_le_length_of_lt d.size hij
  have hstop := d.stop_le_start hij
  have hri := d.start_add_length i
  cases kind with
  | directory =>
    rw [hashChunk_directory_eq_ok_iff] at hj
    exact hi _ (hashChunk_directory_eq_ok_iff.2 ⟨by omega, rfl⟩)
  | file id =>
    rw [hashChunk_eq_ok_iff] at hj
    exact hi _ (hashChunk_eq_ok_iff.2 ⟨by omega, by omega, rfl⟩)

/-- Stopping at the first chunk that cannot be read hides nothing if no later one can be read. -/
theorem has_verifyInOrder {hashOf : ChunkIndex → Except IoError ContentHash} {l : List ChunkIndex}
    {v : VerifiedChunks} (hsorted : l.Pairwise (· < ·))
    (hfail : ∀ {i j}, i < j → (∀ h, hashOf i ≠ .ok h) → ∀ h, hashOf j ≠ .ok h) (j : ChunkIndex) :
    (verifyInOrder hashOf d l v).has j = true ↔
      v.has j = true ∨ j ∈ l ∧ hashOf j = .ok (d.chunkHashes.get j) := by
  induction l generalizing v with
  | nil => simp [verifyInOrder]
  | cons i l ih =>
    rw [List.pairwise_cons] at hsorted
    rw [verifyInOrder, List.mem_cons]
    cases hi : hashOf i with
    | error cause =>
      have hno : ∀ h, hashOf i ≠ .ok h := by simp [hi]
      simp only
      constructor
      · exact Or.inl
      · rintro (hv | ⟨rfl | hm, hj⟩)
        · exact hv
        · exact absurd hj (hno _)
        · exact absurd hj (hfail (hsorted.1 j hm) hno _)
    | ok h =>
      have hget : d.chunkHashes[i] = d.chunkHashes.get i := rfl
      simp only [hget]
      rw [ih hsorted.2]
      by_cases hij : i = j
      · -- The chunks ascend, so no later step looks at this one again.
        subst hij
        have hnot : i ∉ l := fun hm => absurd (hsorted.1 i hm) (Nat.lt_irrefl i.val)
        by_cases hh : h = d.chunkHashes.get i
        · rw [if_pos hh]
          simp [hi, hh, VerifiedChunks.has_set]
        · rw [if_neg hh]
          simp [hi, hh, hnot]
      · by_cases hh : h = d.chunkHashes.get i
        · rw [if_pos hh]
          simp [hij, Ne.symm hij, VerifiedChunks.has_set]
        · rw [if_neg hh]
          simp [Ne.symm hij]

theorem matchesWhole_iff {kind : NodeKind} : matchesWhole disk kind d = true ↔
    ∃ id, kind = .file id ∧ (disk.content id).length = d.size.toNat ∧
      .ofContent (disk.content id) = d.hash := by
  rw [matchesWhole, Bool.and_eq_true, decide_eq_true_iff]
  cases kind with
  | directory =>
    by_cases h0 : d.size.toNat = 0
    · simp [Disk.sizeOf, Disk.directorySize, h0]
    · simp [Disk.hashRange, h0]
  | file id =>
    have hlen : disk.sizeOf (.file id) = (disk.content id).length := (disk.length_content id).symm
    simp only [hlen, NodeKind.file.injEq, exists_eq_left']
    refine and_congr_right ?_
    intro hs
    have hok : disk.hashRange (.file id) 0 d.size.toNat = .ok (.ofContent (disk.content id)) := by
      rw [disk.hashRange_file]
      exact ⟨Nat.zero_le _, by omega, by rw [Bytes.slice_zero_of_le (by omega)]⟩
    simp [hok]

theorem has_verifyPath (path : String) (i : ChunkIndex) :
    (verifyPath disk d path).has i = true ↔ ∃ kind, disk.openToRead path = .ok kind ∧
      (matchesWhole disk kind d = true ∨ hashChunk disk kind d i = .ok (d.chunkHashes.get i)) := by
  rw [verifyPath]
  cases disk.openToRead path with
  | error cause => simp
  | ok kind =>
    simp only [Except.ok.injEq, exists_eq_left']
    by_cases hw : matchesWhole disk kind d = true
    · simp [hw]
    · have hsorted : ChunkIndex.all.Pairwise (· < ·) := by decide
      rw [if_neg hw, has_verifyInOrder hsorted hashChunk_ne_ok_of_lt]
      simp [hw, VerifiedChunks.mem_chunkIndex_all]

theorem verifyChunk_iff_of_path {path : String} (hm : e.mapping = none) (hp : e.path = some path) :
    e.verifyChunk disk i = true ↔ ∃ kind, disk.openToRead path = .ok kind ∧
      hashChunk disk kind e.descriptor i = .ok (e.descriptor.chunkHashes.get i) := by
  rw [verifyChunk, dif_pos i.isLt, decide_eq_true_iff, currentHash?, hm, hp]
  show (disk.openToRead path).toOption.bind
    (fun kind => (hashChunk disk kind e.descriptor i).toOption) =
      some (e.descriptor.chunkHashes.get i) ↔ _
  rw [Option.bind_eq_some_iff]
  simp only [toOption_eq_some_iff]

/-- A chunk counts as verified if the whole file matches or the chunk alone does. -/
theorem has_verify (disk : Disk) (e : Entry) (i : ChunkIndex) :
    (e.verify disk).has i = true ↔ e.WholeMatches disk ∨ e.verifyChunk disk i = true := by
  cases hm : e.mapping with
  | some id =>
    rw [verifyChunk, dif_pos i.isLt, decide_eq_true_iff, verify, WholeMatches, currentHash?, hm]
    simp only [verifyMapped]
    by_cases hw : ContentHash.ofContent ((disk.file id).mapped e.descriptor.size.toNat) =
        e.descriptor.hash
    · rw [if_pos hw, VerifiedChunks.has_all]
      exact iff_of_true rfl (.inl hw)
    · rw [if_neg hw, VerifiedChunks.has_ofPredicate, decide_eq_true_iff, Option.some_inj]
      exact (or_iff_right hw).symm
  | none =>
    cases hp : e.path with
    | none =>
      have hno : e.verify disk = .none := by rw [verify, hm, hp]
      have hchunk : e.verifyChunk disk i = false := by
        rw [verifyChunk, dif_pos i.isLt, currentHash?, hm, hp]
        rfl
      simp [hno, hchunk, WholeMatches, hm, hp]
    | some path =>
      have hv : e.verify disk = verifyPath disk e.descriptor path := by rw [verify, hm, hp]
      rw [hv, has_verifyPath, verifyChunk_iff_of_path hm hp, WholeMatches, hm]
      simp only [hp, Option.some.injEq, matchesWhole_iff]
      constructor
      · rintro ⟨kind, hk, ⟨id, rfl, hw⟩ | hc⟩
        · exact .inl ⟨path, id, rfl, hk, hw⟩
        · exact .inr ⟨kind, hk, hc⟩
      · rintro (⟨_, id, rfl, hk, hw⟩ | ⟨kind, hk, hc⟩)
        · exact ⟨_, hk, .inl ⟨id, rfl, hw⟩⟩
        · exact ⟨kind, hk, .inr hc⟩

/-- A file counts as complete if it matches as a whole or if every chunk does. -/
theorem isComplete_verify (disk : Disk) (e : Entry) : (e.verify disk).isComplete = true ↔
    e.WholeMatches disk ∨ ∀ i : ChunkIndex, e.verifyChunk disk i = true := by
  rw [VerifiedChunks.isComplete_iff]
  simp only [has_verify]
  exact forall_or_left

end Entry

end FileMesh
