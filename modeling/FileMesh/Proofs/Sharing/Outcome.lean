import FileMesh.Proofs.Download
import FileMesh.Proofs.Sharing

/-!
# What comes of sharing a file

A file is shared only after a row of checks. The first one that fails decides the error, and then
there is no other store; if none fails, the store has one entry more, described by the bytes of the
file. The disk is only read.
-/

namespace FileMesh

/-- A file is read by opening it; a directory can be opened but not read. -/
theorem Disk.read_eq (disk : Disk) (path : String) : disk.read path =
    match disk.openToRead path with
      | .error cause => .error cause
      | .ok .directory => .error .isDirectory
      | .ok (.file id) => .ok (disk.content id) := by
  rw [read, openToRead]
  cases disk.resolve path with
  | error cause => rfl
  | ok r =>
    obtain ⟨place, kind⟩ := r
    cases kind <;> rfl

namespace Store

variable {s t : Store} {disk : Disk} {path name : String} {c : Bytes} {d : Descriptor}

/-- The error for a use of the disk that failed. -/
def failure? {α : Type} : Except IoError α → Option StoreError
  | .error cause => some (.io cause)
  | .ok _ => none

/-- What is checked before a file is shared, in order: the length of the name, that there is
something to open, its size, that it can be read, that its hash is new, and that it is not zero. A
check that fails gives the error. One that has nothing to look at does not fail. -/
def shareChecks (s : Store) (disk : Disk) (path name : String) : List (Option StoreError) :=
  let nameLength := (Utf8.encode name).length
  let opened := disk.openToRead path
  let read := disk.read path
  [if nameWidth < nameLength then some (.nameTooLong nameLength) else none,
    failure? opened,
    opened.toOption.bind fun kind =>
      if disk.sizeOf kind < StoreError.smallestFile then some (.tooSmall (disk.sizeOf kind))
      else none,
    failure? read,
    read.toOption.bind fun c =>
      if s.contains (.ofContent c) then some (.duplicate (.ofContent c)) else none,
    read.toOption.bind fun c =>
      if ContentHash.ofContent c = .zero then some .reservedHash else none]

/-- The error of the first check that fails. -/
def shareRefusal? (s : Store) (disk : Disk) (path name : String) : Option StoreError :=
  (s.shareChecks disk path name).findSome? id

/-- The name fits, and at the path there is a file with the content `c` that is large enough and
whose hash is new. -/
structure Shareable (s : Store) (disk : Disk) (path name : String) (c : Bytes) : Prop where
  name_fits : (Utf8.encode name).length ≤ nameWidth
  read : disk.read path = .ok c
  smallest_le : StoreError.smallestFile ≤ c.length
  hash_ne_zero : ContentHash.ofContent c ≠ .zero
  new : s.contains (.ofContent c) = false

/-- A descriptor of the content `c`, and a store that has one entry more and no other, with this
descriptor and for the file at this path. -/
structure Shared (s : Store) (disk : Disk) (path name : String) (c : Bytes) (d : Descriptor)
    (t : Store) : Prop where
  name_eq : d.name = name
  size_eq : d.size.toNat = c.length
  hash_eq : d.hash = .ofContent c
  chunkHash_eq : ∀ i : ChunkIndex, d.chunkHashes[i] =
    .ofContent (c.slice (ChunkRange.ofIndex d.size i).start.toNat
      (ChunkRange.ofIndex d.size i).length.toNat)
  perm : t.table.toList.Perm ((d.hash, .ofFile d path) :: s.table.toList)
  lookup_eq : ∀ hash, t.lookup hash =
    if hash = d.hash then some (.ofFile d path) else s.lookup hash
  downloadDir_eq : t.downloadDir = s.downloadDir
  verify_eq : (Entry.ofFile d path).verify disk = .all

/-! ## Refusals -/

theorem share_of_long (h : nameWidth < (Utf8.encode name).length) :
    s.share disk path name = .error (.nameTooLong (Utf8.encode name).length) := by
  rw [share]
  exact if_pos h

theorem share_eq (h : (Utf8.encode name).length ≤ nameWidth) : s.share disk path name =
    match disk.openToRead path with
      | .error cause => .error (.io cause)
      | .ok kind => (s.describe disk kind name).bind fun d =>
          (s.addFile d path).map fun t => (d, t) := by
  rw [share]
  refine (if_neg (Nat.not_lt.2 h)).trans ?_
  cases disk.openToRead path with
  | error cause => rfl
  | ok kind =>
    cases hd : s.describe disk kind name with
    | error cause => simp [Except.mapError, bind, Except.bind, hd]
    | ok d =>
      cases ha : s.addFile d path with
      | error cause => simp [Except.mapError, Except.map, bind, Except.bind, hd, ha]
      | ok t => simp [Except.mapError, Except.map, bind, Except.bind, hd, ha]

theorem insert_of_zero {e : Entry} (hn : e.descriptor.nameLength ≤ nameWidth)
    (hz : e.descriptor.hash = .zero) : s.insert e = .error .reservedHash := by
  rw [insert, if_neg (Nat.not_lt.2 hn), hz, Table.insert_zero]

/-- The first check that fails, once the name fits. -/
theorem shareRefusal?_eq (hn : (Utf8.encode name).length ≤ nameWidth) :
    s.shareRefusal? disk path name =
      match disk.openToRead path with
        | .error cause => some (.io cause)
        | .ok .directory => some (.io .isDirectory)
        | .ok (.file id) =>
          if (disk.content id).length < StoreError.smallestFile then
            some (.tooSmall (disk.content id).length)
          else if s.contains (.ofContent (disk.content id)) then
            some (.duplicate (.ofContent (disk.content id)))
          else if ContentHash.ofContent (disk.content id) = .zero then some .reservedHash
          else none := by
  have hfits := Nat.not_lt.2 hn
  have hread := disk.read_eq path
  cases ho : disk.openToRead path with
  | error cause => simp [shareRefusal?, shareChecks, failure?, ho, hfits]
  | ok kind =>
    rw [ho] at hread
    cases kind with
    | directory =>
      have hlarge : ¬ disk.sizeOf .directory < StoreError.smallestFile :=
        (by decide : ¬ Disk.directorySize < StoreError.smallestFile)
      simp [shareRefusal?, shareChecks, failure?, Except.toOption, ho, hread, hfits, hlarge]
    | file id =>
      have hlen : disk.sizeOf (.file id) = (disk.content id).length :=
        (disk.length_content id).symm
      by_cases hsmall : (disk.content id).length < StoreError.smallestFile
      · simp [shareRefusal?, shareChecks, failure?, Except.toOption, ho, hfits, hlen, hsmall]
      · by_cases hknown : s.contains (.ofContent (disk.content id)) <;>
          simp [shareRefusal?, shareChecks, failure?, Except.toOption, ho, hread, hfits, hlen,
            hsmall, hknown]

/-- Nothing is against sharing a file exactly if no check fails. -/
theorem shareRefusal?_eq_none_iff :
    s.shareRefusal? disk path name = none ↔ ∃ c, s.Shareable disk path name c := by
  constructor
  · intro h
    have hn : (Utf8.encode name).length ≤ nameWidth := by
      by_contra hlong
      simp [shareRefusal?, shareChecks, Nat.lt_of_not_le hlong] at h
    rw [shareRefusal?_eq hn] at h
    cases ho : disk.openToRead path with
    | error cause => simp [ho] at h
    | ok kind =>
      cases kind with
      | directory => simp [ho] at h
      | file id =>
        rw [ho] at h
        dsimp only at h
        by_cases hsmall : (disk.content id).length < StoreError.smallestFile
        · simp [hsmall] at h
        · by_cases hknown : s.contains (.ofContent (disk.content id))
          · simp [hsmall, hknown] at h
          · by_cases hz : ContentHash.ofContent (disk.content id) = .zero
            · rw [if_neg hsmall, if_neg hknown, if_pos hz] at h
              cases h
            · exact ⟨disk.content id, hn, Disk.read_eq_ok_iff.2 ⟨id, ho, rfl⟩,
                Nat.not_lt.1 hsmall, hz, Bool.eq_false_iff.2 hknown⟩
  · rintro ⟨c, h⟩
    obtain ⟨id, ho, rfl⟩ := Disk.read_eq_ok_iff.1 h.read
    rw [shareRefusal?_eq h.name_fits, ho]
    simp [Nat.not_lt.2 h.smallest_le, h.new, h.hash_ne_zero]

/-- A file for which a check fails is not shared, and the first such check gives the error. -/
theorem share_of_refusal (hlarge : ∀ c, disk.read path = .ok c → c.length ≤ Disk.largestOffset)
    {cause : StoreError} (h : s.shareRefusal? disk path name = some cause) :
    s.share disk path name = .error cause := by
  rcases Nat.lt_or_ge nameWidth (Utf8.encode name).length with hn | hn
  · rw [share_of_long hn]
    simpa [shareRefusal?, shareChecks, hn] using h
  · rw [shareRefusal?_eq hn] at h
    rw [share_eq hn]
    cases ho : disk.openToRead path with
    | error cause' =>
      simpa [ho] using h
    | ok kind =>
      rw [ho] at h
      cases kind with
      | directory => exact congrArg Except.error (Option.some.inj h)
      | file id =>
        have hread : disk.read path = .ok (disk.content id) := Disk.read_eq_ok_iff.2 ⟨id, ho, rfl⟩
        dsimp only at h ⊢
        rw [describe_file_eq (hlarge _ hread)]
        by_cases hsmall : (disk.content id).length < StoreError.smallestFile
        · rw [if_pos hsmall] at h ⊢
          cases h
          rfl
        · rw [if_neg hsmall] at h ⊢
          by_cases hknown : s.contains (.ofContent (disk.content id))
          · rw [if_pos hknown] at h ⊢
            cases h
            rfl
          · rw [if_neg hknown] at h ⊢
            by_cases hz : ContentHash.ofContent (disk.content id) = .zero
            · rw [if_pos hz] at h
              cases h
              have hadd : s.addFile (.ofContent name (disk.content id)) path =
                  .error .reservedHash := insert_of_zero hn hz
              simp only [Except.bind, hadd]
              rfl
            · rw [if_neg hz] at h
              cases h

/-! ## Success -/

/-- A file that nothing is against is shared. -/
theorem Valid.share_of_shareable (hs : s.Valid) (h : s.Shareable disk path name c)
    (hlarge : c.length ≤ Disk.largestOffset) :
    ∃ d t, s.share disk path name = .ok (d, t) ∧ s.Shared disk path name c d t := by
  have hword : Disk.largestOffset < 2 ^ 64 := by decide
  obtain ⟨id, ho, rfl⟩ := Disk.read_eq_ok_iff.1 h.read
  have hdescribe : s.describe disk (.file id) name = .ok (.ofContent name (disk.content id)) :=
    (describe_file_eq_ok_iff hlarge).2 ⟨h.smallest_le, h.new, rfl⟩
  obtain ⟨t, ht⟩ : ∃ t, s.addFile (.ofContent name (disk.content id)) path = .ok t :=
    hs.exists_insert_iff.2 ⟨h.name_fits, h.hash_ne_zero, h.new⟩
  have hsize := Descriptor.size_ofContent name (c := disk.content id) (by omega)
  refine ⟨_, t, (share_eq_ok_iff ho).2 ⟨h.name_fits, hdescribe, ht⟩, ?_⟩
  exact {
    name_eq := rfl
    size_eq := hsize
    hash_eq := rfl
    chunkHash_eq := fun i => by simp [Descriptor.ofContent]
    perm := (hs.perm_insert ht).2
    lookup_eq := by
      intro hash
      split
      · rename_i he
        rw [he]
        exact hs.lookup_insert ht
      · rename_i hne
        exact hs.lookup_insert_of_ne ht hne
    downloadDir_eq := by
      obtain ⟨-, table, -, rfl⟩ := insert_eq_ok_iff.1 ht
      rfl
    verify_eq := by
      have hwhole : (Entry.ofFile (.ofContent name (disk.content id)) path).WholeMatches disk :=
        ⟨path, id, rfl, ho, hsize.symm, rfl⟩
      have hcomplete := (Entry.isComplete_verify disk _).2 (.inl hwhole)
      simpa [VerifiedChunks.isComplete] using hcomplete }

/-- Sharing a file. If the name fits and the file can be read, is large enough and has a new hash,
then its description is given and its entry added. In every other case there is an error, that of
the first check that fails, and no other store. The disk is only read. Offsets are signed, so no
file is longer than the largest one. -/
theorem Valid.share_total (hs : s.Valid)
    (hlarge : ∀ c, disk.read path = .ok c → c.length ≤ Disk.largestOffset) :
    (∀ c, s.Shareable disk path name c →
      ∃ d t, s.share disk path name = .ok (d, t) ∧ s.Shared disk path name c d t) ∧
    ((¬ ∃ c, s.Shareable disk path name c) → ∃ cause,
      s.shareRefusal? disk path name = some cause ∧ s.share disk path name = .error cause) := by
  refine ⟨fun c hc => hs.share_of_shareable hc (hlarge c hc.read), fun hno => ?_⟩
  rw [← shareRefusal?_eq_none_iff] at hno
  obtain ⟨cause, hcause⟩ := Option.ne_none_iff_exists'.1 hno
  exact ⟨cause, hcause, share_of_refusal hlarge hcause⟩

/-- A file of 512 zeros is shared, and nothing under another name. -/
theorem share_total_zeros : ∃ disk d t, Disk.empty.write "f" (Bytes.zeros 512) = .ok disk ∧
    (Store.empty "").Valid ∧ (Store.empty "").Shareable disk "f" "zeros" (Bytes.zeros 512) ∧
    (Store.empty "").share disk "f" "zeros" = .ok (d, t) ∧
    (Store.empty "").Shared disk "f" "zeros" (Bytes.zeros 512) d t ∧
    (Store.empty "").share disk "g" "zeros" = .error (.io .notFound) := by
  obtain ⟨disk, hw, ho, hc, ho'⟩ : ∃ disk, Disk.empty.write "f" (Bytes.zeros 512) = .ok disk ∧
      disk.openToRead "f" = .ok (.file 0) ∧ disk.content 0 = Bytes.zeros 512 ∧
      disk.openToRead "g" = .error .notFound :=
    ⟨_, rfl, rfl, by decide +kernel, rfl⟩
  have hread : disk.read "f" = .ok (Bytes.zeros 512) := Disk.read_eq_ok_iff.2 ⟨0, ho, hc.symm⟩
  have hread' : disk.read "g" = .error .notFound := by rw [Disk.read_eq, ho']
  have hs := valid_empty ""
  have hz : ContentHash.ofContent (Bytes.zeros 512) ≠ .zero := by
    rw [Relay.ofContent_zeros]
    decide
  have hshareable : (Store.empty "").Shareable disk "f" "zeros" (Bytes.zeros 512) := {
    name_fits := by decide
    read := hread
    smallest_le := by rw [Bytes.length_zeros]; decide
    hash_ne_zero := hz
    new := by
      rw [contains, Table.contains_eq_isSome_get?]
      exact congrArg Option.isSome (lookup_empty "" _) }
  have hlarge (c : Bytes) (hc : disk.read "f" = .ok c) : c.length ≤ Disk.largestOffset := by
    rw [hread] at hc
    cases hc
    rw [Bytes.length_zeros]
    decide
  obtain ⟨d, t, hshare, hshared⟩ := (hs.share_total hlarge).1 _ hshareable
  have hno : ¬ ∃ c, (Store.empty "").Shareable disk "g" "zeros" c := by
    rintro ⟨c, hc⟩
    have hr := hc.read
    rw [hread'] at hr
    cases hr
  have hlarge' (c : Bytes) (hc : disk.read "g" = .ok c) : c.length ≤ Disk.largestOffset := by
    rw [hread'] at hc
    cases hc
  obtain ⟨cause, hcause, herror⟩ := (hs.share_total hlarge').2 hno
  rw [shareRefusal?_eq (by decide), ho'] at hcause
  cases hcause
  exact ⟨disk, d, t, hw, hs, hshareable, hshare, hshared, herror⟩

end Store

end FileMesh
