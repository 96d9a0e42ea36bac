import FileMesh.Node
import FileMesh.Proofs.Backing
import FileMesh.Proofs.Disk.Parent
import FileMesh.Proofs.Store

/-!
# Sharing a file

Sharing a file describes what can be read at its path and adds an entry that has this file.
-/

namespace FileMesh

namespace Store

variable {s t : Store} {disk : Disk} {id : FileId} {d : Descriptor} {path name : String}
  {kind : NodeKind}

/-- If every chunk can be read it does not matter which one is read first. -/
theorem hashChunks_eq_ok {size : UInt64} {hashOf : ChunkIndex → ContentHash}
    (h : ∀ i : ChunkIndex, let r := ChunkRange.ofIndex size i
      disk.hashRange kind r.start.toNat r.length.toNat = .ok (hashOf i)) :
    hashChunks disk kind size = .ok (.ofFn hashOf) := by
  have hothers : (Vector.ofFnM fun i : Fin 7 =>
      (Except.ok (hashOf i.castSucc) : Except IoError ContentHash)) =
        .ok (.ofFn fun i : Fin 7 => hashOf i.castSucc) := Vector.ofFnM_pure_comp
  simp only [hashChunks, h, hothers, bind, Except.bind]
  exact congrArg Except.ok Vector.ofFn_succ.symm

/-- A file is described by its bytes unless it is too small or known. -/
theorem describe_file_eq (hsize : (disk.content id).length ≤ Disk.largestOffset) :
    s.describe disk (.file id) name =
      if (disk.content id).length < StoreError.smallestFile then
        .error (.tooSmall (disk.content id).length)
      else if s.contains (.ofContent (disk.content id)) then
        .error (.duplicate (.ofContent (disk.content id)))
      else .ok (.ofContent name (disk.content id)) := by
  have hlen : disk.sizeOf (.file id) = (disk.content id).length := (disk.length_content id).symm
  have hoffset : Disk.largestOffset < 2 ^ 64 := by decide
  have htoNat : (UInt64.ofNat (disk.content id).length).toNat = (disk.content id).length := by
    rw [UInt64.toNat_ofNat', Nat.mod_eq_of_lt (by omega)]
  have hwhole : disk.hashRange (.file id) 0 (disk.content id).length =
      .ok (.ofContent (disk.content id)) := by
    rw [disk.hashRange_file]
    exact ⟨Nat.zero_le _, by omega, by rw [Bytes.slice_zero_of_le (Nat.le_refl _)]⟩
  have hchunk (i : ChunkIndex) :
      let r := ChunkRange.ofIndex (UInt64.ofNat (disk.content id).length) i
      disk.hashRange (.file id) r.start.toNat r.length.toNat =
        .ok (.ofContent ((disk.content id).slice r.start.toNat r.length.toNat)) := by
    have hstop := ChunkRange.stop_le_size (UInt64.ofNat (disk.content id).length) i
    have hadd := ChunkRange.start_add_length (UInt64.ofNat (disk.content id).length) i
    rw [htoNat] at hstop
    rw [disk.hashRange_file]
    exact ⟨by omega, by omega, rfl⟩
  have hchunks : hashChunks disk (.file id) (UInt64.ofNat (disk.content id).length) =
      .ok (Descriptor.ofContent name (disk.content id)).chunkHashes := hashChunks_eq_ok hchunk
  simp only [describe, hlen, hwhole, hchunks, Except.mapError, bind, Except.bind]
  rfl

/-- A file is described unless it is too small or known, and the description is that of its bytes.
-/
theorem describe_file_eq_ok_iff (hsize : (disk.content id).length ≤ Disk.largestOffset) :
    s.describe disk (.file id) name = .ok d ↔
      StoreError.smallestFile ≤ (disk.content id).length ∧
        s.contains (.ofContent (disk.content id)) = false ∧
          d = .ofContent name (disk.content id) := by
  rw [describe_file_eq hsize]
  split
  · rename_i hsmall
    simp [Nat.not_le.2 hsmall]
  · rename_i hsmall
    split
    · rename_i hknown
      simp [hknown]
    · rename_i hknown
      simp [Nat.not_lt.1 hsmall, hknown, eq_comm]

/-- The store has an entry of a file with the content `c`, described by `d`. -/
structure Holds (s : Store) (disk : Disk) (d : Descriptor) (c : Bytes) : Prop where
  valid : s.Valid
  entry : ∃ e id, s.lookup d.hash = some e ∧ e.descriptor = d ∧ e.Backed disk id ∧
    disk.content id = c

theorem share_eq_ok_iff (ho : disk.openToRead path = .ok kind) :
    s.share disk path name = .ok (d, t) ↔ (Utf8.encode name).length ≤ nameWidth ∧
      s.describe disk kind name = .ok d ∧ s.addFile d path = .ok t := by
  have hopen : (disk.openToRead path).mapError StoreError.io = .ok kind := by
    rw [ho]
    rfl
  rw [share]
  by_cases hn : nameWidth < (Utf8.encode name).length
  · simp [hn, Nat.not_le.2 hn]
  · simp only [hn, if_false, Nat.not_lt.1 hn, true_and, Except.bind_eq_ok_iff, hopen,
      Except.ok.injEq, Prod.mk.injEq, exists_eq_left']
    constructor
    · rintro ⟨d', hd, t', ht, rfl, rfl⟩
      exact ⟨hd, ht⟩
    · rintro ⟨hd, ht⟩
      exact ⟨d, hd, t, ht, rfl, rfl⟩

/-- What was shared is a file that can be read. -/
theorem exists_openToRead_of_share (h : s.share disk path name = .ok (d, t)) :
    ∃ id, disk.openToRead path = .ok (.file id) ∧ s.addFile d path = .ok t := by
  cases ho : disk.openToRead path with
  | error cause =>
    have hopen : (disk.openToRead path).mapError StoreError.io = .error (.io cause) := by
      rw [ho]
      rfl
    rw [share, hopen] at h
    split at h <;> cases h
  | ok kind =>
    obtain ⟨-, hd, ha⟩ := (share_eq_ok_iff ho).1 h
    cases kind with
    | directory => cases hd
    | file id => exact ⟨id, rfl, ha⟩

/-- A file that is large enough and new can be shared under a name that fits. -/
theorem Valid.exists_share (h : s.Valid) {c : Bytes} (hr : disk.read path = .ok c)
    (hsize : c.length ≤ Disk.largestOffset) (hsmall : StoreError.smallestFile ≤ c.length)
    (hname : (Utf8.encode name).length ≤ nameWidth) (hz : .ofContent c ≠ ContentHash.zero)
    (hl : s.lookup (.ofContent c) = none) :
    ∃ t, s.share disk path name = .ok (.ofContent name c, t) := by
  obtain ⟨id, hopen, rfl⟩ := Disk.read_eq_ok_iff.1 hr
  obtain ⟨t, ht⟩ := h.exists_insert
    (e := .ofFile (.ofContent name (disk.content id)) path) hname hz hl
  have hnew : s.contains (.ofContent (disk.content id)) = false := by
    rw [contains, Table.contains_eq_isSome_get?]
    exact Option.isSome_eq_false_iff.2 (Option.isNone_iff_eq_none.2 hl)
  have hd : s.describe disk (.file id) name = .ok (.ofContent name (disk.content id)) :=
    (describe_file_eq_ok_iff hsize).2 ⟨hsmall, hnew, rfl⟩
  exact ⟨t, (share_eq_ok_iff hopen).2 ⟨hname, hd, ht⟩⟩

/-- A file that was shared is described by its bytes and held. -/
theorem Valid.share (h : s.Valid) (hd : disk.WellFormed) {c : Bytes} (hr : disk.read path = .ok c)
    (hsize : disk.Admits c.length) (hs : s.share disk path name = .ok (d, t)) :
    d = .ofContent name c ∧ d.nameLength ≤ nameWidth ∧ t.Holds disk d c := by
  have hoffset : c.length ≤ Disk.largestOffset := hsize.le
  have hword : Disk.largestOffset < 2 ^ 64 := by decide
  obtain ⟨id, hopen, rfl⟩ := Disk.read_eq_ok_iff.1 hr
  obtain ⟨hname, hdescribe, hadd⟩ := (share_eq_ok_iff hopen).1 hs
  obtain ⟨-, -, rfl⟩ := (describe_file_eq_ok_iff hoffset).1 hdescribe
  have hlength := Descriptor.size_ofContent name (c := disk.content id) (by omega)
  refine ⟨rfl, hname, h.insert hadd, _, id, h.lookup_insert hadd, rfl, ?_, rfl⟩
  exact {
    path := rfl
    bound := hd.bound_of_openToRead hopen
    mapping := .inl rfl
    length := (disk.length_content id).symm.trans hlength.symm
    admits := by rwa [← hlength] at hsize }

end Store

/-- A node shares a file under its last name and then announces it. -/
theorem Node.exists_of_share {n n' : Node} {disk : Disk} {path : String} {d : Descriptor}
    (h : n.share disk path = .ok (d, n')) :
    ∃ name t, Path.fileName? path = some name ∧ n.store.share disk path name = .ok (d, t) ∧
      n' = ({ n with store := t } : Node).announce d := by
  rw [share, scan] at h
  cases hname : Path.fileName? path with
  | none =>
    rw [hname] at h
    cases h
  | some name =>
    rw [hname] at h
    cases hshare : n.store.share disk path name with
    | error cause =>
      simp only [hshare] at h
      cases h
    | ok shared =>
      simp only [hshare] at h
      cases h
      exact ⟨name, shared.2, rfl, hshare, rfl⟩

end FileMesh
