import FileMesh.Proofs.Sited

/-!
# What an entry shows

An entry shows its checks, its chunks and the bytes of its file. What it shows depends on its own
file alone, so a change of the disk at another place leaves it as it was.
-/

namespace FileMesh

namespace Disk

variable {d d' : Disk} {path : String}

theorem Agrees.sameRead (h : Agrees d d' path) : d.SameRead d' path where
  openToRead := h.openToRead
  content id ho := by rw [content, content, h.file_of_openToRead ho]

theorem Agrees.toOption_read (h : Agrees d d' path) :
    (d'.read path).toOption = (d.read path).toOption := by
  have hiff (b : Bytes) : d'.read path = .ok b ↔ d.read path = .ok b := by
    rw [read_eq_ok_iff, read_eq_ok_iff, h.openToRead]
    refine exists_congr fun id => and_congr_right fun ho => ?_
    rw [content, content, h.file_of_openToRead ho]
  ext b
  rw [toOption_eq_some_iff, toOption_eq_some_iff, hiff]

/-! ## Files that are opened for writing -/

/-- What is in the file at a path when it is opened for writing. -/
def found (d : Disk) (path : String) : Except IoError FileContent :=
  (d.openOrCreate path).map fun r => r.2.file r.1

/-- Disks that show the same at a path have the same file there to write. -/
theorem Agrees.found (h : Agrees d d' path) : d'.found path = d.found path := by
  have hcreate (d : Disk) (q : Place) : (d.create q).file d.contents.length = .ofBytes [] := by
    simp [Disk.file, Disk.create]
  rw [Disk.found, Disk.found, openOrCreate, openOrCreate, h.target]
  cases ht : d.target path with
  | error cause => rfl
  | ok q =>
    simp only [bind, Except.bind, h.kind? ht]
    split
    · rfl
    · cases hk : d.kind? q with
      | none => exact congrArg Except.ok ((hcreate d' q).trans (hcreate d q).symm)
      | some kind =>
        cases kind with
        | directory => rfl
        | file id => exact congrArg Except.ok (h.file ht hk)

end Disk

namespace Entry

open Disk (Touch Agrees)

variable {dir name path : String} {d d' d'' : Disk} {e e' : Entry} {id : FileId} {q : Place}

/-! ## Reading a chunk -/

/-- What is in a file that was mapped. -/
def seen (r : Except IoError FileId × Disk) : Except IoError FileContent := r.1.map r.2.file

/-- What a file is when it was mapped, from what it was before. -/
def mappedAs (system : FileSystem) (size : Nat) (f : FileContent) : Except IoError FileContent :=
  if Disk.largestOffset < size then .error .sizeTooLarge
  else match system.lengthFailure size with
    | some cause => .error cause
    | none => match system.mapFailure size with
      | some cause => .error cause
      | none => .ok (f.setLength size)

theorem seen_openMapped (hd : d.WellFormed) (path : String) (size : Nat) :
    seen (openMapped d path size) = d.found path >>= mappedAs d.system size := by
  rw [openMapped, Disk.found]
  cases ho : d.openOrCreate path with
  | error cause => rfl
  | ok r =>
    obtain ⟨id, d₁⟩ := r
    obtain ⟨hle, hd₁, -, -, place, -, hk⟩ := Disk.openOrCreate_spec hd ho
    have hfound : (Except.ok (id, d₁) : Except IoError (FileId × Disk)).map
          (fun r => r.2.file r.1) >>= mappedAs d.system size =
        mappedAs d.system size (d₁.file id) := rfl
    rw [hfound, mappedAs, ← hle.system]
    simp only [Disk.mapSized, Disk.setLength]
    by_cases hoffset : Disk.largestOffset < size
    · simp only [if_pos hoffset]
      rfl
    · simp only [if_neg hoffset]
      cases d₁.system.lengthFailure size with
      | some cause => rfl
      | none =>
        have hsystem (f : FileContent) : (d₁.setFile id f).system = d₁.system := rfl
        simp only [hsystem]
        cases d₁.system.mapFailure size with
        | some cause => rfl
        | none => exact congrArg Except.ok (Disk.file_setFile_of_lt (hd₁.file_lt hk) _)

/-- What is mapped is the same where a path shows the same. -/
theorem seen_openMapped_of_agrees (hd : d.WellFormed) (hd' : d'.WellFormed) (hle : d.Le d')
    (h : Agrees d d' path) (size : Nat) :
    seen (openMapped d' path size) = seen (openMapped d path size) := by
  rw [seen_openMapped hd', seen_openMapped hd, h.found, hle.system]

theorem readChunk_of_unmapped (hm : e.mapping = none) (d : Disk) (index : Nat) :
    (e.readChunk d index).1 = match e.descriptor.chunkRange? index with
      | none => .error (.noSuchChunk index)
      | some range =>
        ((seen (mapFile d e.backingPath e.size)).map (rangeOf · range)).mapError .io := by
  rw [readChunk, openChunk]
  cases e.descriptor.chunkRange? index with
  | none => rfl
  | some range =>
    simp only [openFile_of_unmapped hm]
    obtain ⟨⟨result, d₁⟩, hmap⟩ : ∃ r, mapFile d e.backingPath e.size = r := ⟨_, rfl⟩
    rw [hmap]
    cases result <;> rfl

theorem readChunk_of_mapped (hm : e.mapping = some id) (d : Disk) (index : Nat) :
    (e.readChunk d index).1 = match e.descriptor.chunkRange? index with
      | none => .error (.noSuchChunk index)
      | some range => .ok (rangeOf (d.file id) range) := by
  rw [readChunk, openChunk]
  cases e.descriptor.chunkRange? index with
  | none => rfl
  | some range => simp [openFile, view, hm, Except.map]

/-! ## What is shown -/

/-- An entry shows the same on two disks. Where the directory for files cannot be made, a chunk of
an entry without a file cannot be read, and the reason may change. -/
structure SameView (dir : String) (d d' : Disk) (e : Entry) : Prop where
  verify : e.verify d' = e.verify d
  verifyChunk : ∀ index, e.verifyChunk d' index = e.verifyChunk d index
  bytes? : e.bytes? d' = e.bytes? d
  toOption_readChunk : ∀ index,
    (e.readChunk d' index).1.toOption = (e.readChunk d index).1.toOption
  readChunk : (d.makeDirectories (Path.plain dir)).1 = .ok () → ∀ index,
    (e.readChunk d' index).1 = (e.readChunk d index).1

theorem SameView.refl (dir : String) (d : Disk) (e : Entry) : SameView dir d d e :=
  ⟨rfl, fun _ => rfl, rfl, fun _ => rfl, fun _ _ => rfl⟩

theorem SameView.trans (h : SameView dir d d' e) (h' : SameView dir d' d'' e)
    (hmake : (d.makeDirectories (Path.plain dir)).1 = .ok () →
      (d'.makeDirectories (Path.plain dir)).1 = .ok ()) : SameView dir d d'' e where
  verify := h'.verify.trans h.verify
  verifyChunk index := (h'.verifyChunk index).trans (h.verifyChunk index)
  bytes? := h'.bytes?.trans h.bytes?
  toOption_readChunk index := (h'.toOption_readChunk index).trans (h.toOption_readChunk index)
  readChunk hm index := (h'.readChunk (hmake hm) index).trans (h.readChunk hm index)

/-- What an entry has mapped and what is at its path are the same on two disks. -/
structure Undisturbed (d d' : Disk) (e : Entry) : Prop where
  mapped : ∀ {id}, e.mapping = some id → d'.file id = d.file id
  path : ∀ {path}, e.path = some path → Agrees d d' path

namespace Undisturbed

theorem verify (h : Undisturbed d d' e) : e.verify d' = e.verify d := by
  cases hm : e.mapping with
  | some id => simp only [Entry.verify, hm, h.mapped hm]
  | none => exact verify_of_sameRead hm fun path hp => (h.path hp).sameRead

theorem currentHash? (h : Undisturbed d d' e) (i : ChunkIndex) :
    e.currentHash? d' i = e.currentHash? d i := by
  cases hm : e.mapping with
  | some id => simp only [Entry.currentHash?, hm, h.mapped hm]
  | none => exact currentHash?_of_sameRead hm (fun path hp => (h.path hp).sameRead) i

theorem verifyChunk (h : Undisturbed d d' e) (index : Nat) :
    e.verifyChunk d' index = e.verifyChunk d index := by
  rw [Entry.verifyChunk, Entry.verifyChunk]
  split
  · rw [h.currentHash?]
  · rfl

theorem bytes? (h : Undisturbed d d' e) : e.bytes? d' = e.bytes? d := by
  rw [Entry.bytes?, Entry.bytes?]
  cases hp : e.path with
  | none => rfl
  | some path => exact (h.path hp).toOption_read

/-- What can be read then depends on the reading of the file when it is not mapped. -/
theorem sameView (h : Undisturbed d d' e) (hseen : e.mapping = none →
    (seen (mapFile d' e.backingPath e.size)).toOption =
        (seen (mapFile d e.backingPath e.size)).toOption ∧
      ((d.makeDirectories (Path.plain dir)).1 = .ok () →
        seen (mapFile d' e.backingPath e.size) = seen (mapFile d e.backingPath e.size))) :
    SameView dir d d' e := by
  have hoption {ε ε' α β : Type} (x : Except ε α) (f : α → β) (g : ε → ε') :
      ((x.map f).mapError g).toOption = x.toOption.map f := by
    cases x <;> rfl
  refine ⟨h.verify, h.verifyChunk, h.bytes?, fun index => ?_, fun hmake index => ?_⟩
  · cases hm : e.mapping with
    | some id => rw [readChunk_of_mapped hm, readChunk_of_mapped hm, h.mapped hm]
    | none =>
      rw [readChunk_of_unmapped hm, readChunk_of_unmapped hm]
      cases e.descriptor.chunkRange? index with
      | none => rfl
      | some range => simp only [hoption, (hseen hm).1]
  · cases hm : e.mapping with
    | some id => rw [readChunk_of_mapped hm, readChunk_of_mapped hm, h.mapped hm]
    | none => rw [readChunk_of_unmapped hm, readChunk_of_unmapped hm, (hseen hm).2 hmake]

end Undisturbed

/-! ## Changes at another place -/

/-- An entry that waits for its file finds the same when the disk changes at another place: the
directory for it is made now or was made then. -/
theorem seen_mapFile_join (hd : d.Tidy) (ht : Touch dir q d d') (hn : Path.IsName name)
    (hne : d.site (Path.join dir name) ≠ q) (size : Nat) :
    (seen (mapFile d' (Path.join dir name) size)).toOption =
        (seen (mapFile d (Path.join dir name) size)).toOption ∧
      ((d.makeDirectories (Path.plain dir)).1 = .ok () →
        seen (mapFile d' (Path.join dir name) size) =
          seen (mapFile d (Path.join dir name) size)) := by
  rw [mapFile_join d hn, mapFile_join d' hn]
  cases ht with
  | prepare =>
    obtain ⟨⟨made, d₁⟩, hmade⟩ : ∃ r, d.makeDirectories (Path.plain dir) = r := ⟨_, rfl⟩
    cases made with
    | ok _ =>
      have hh : d₁.Housed dir := by
        have h := Disk.housed_makeDirectories (by rw [hmade])
        rwa [hmade] at h
      rw [hmade, hh]
      exact ⟨rfl, fun _ => rfl⟩
    | error cause =>
      obtain ⟨cause', hagain⟩ := Disk.makeDirectories_of_error hmade
      rw [hmade, hagain]
      exact ⟨rfl, fun h => by cases h⟩
  | create hh hk htail =>
    have ht : Touch dir q d (d.create q) := .create hh hk htail
    have hseen : seen (openMapped (d.create q) (Path.join dir name) size) =
        seen (openMapped d (Path.join dir name) size) :=
      seen_openMapped_of_agrees hd.toWellFormed (ht.tidy hd).toWellFormed ht.le
        (ht.agrees_of_settled hd hh.settled hn hne) size
    rw [hh, hh.mono ht.le]
    exact ⟨congrArg _ hseen, fun _ => hseen⟩
  | @change id hk f =>
    -- The directory is made all the same, and the file at the other place is changed then.
    have hgrows := (d.makeDirectories_spec (Path.plain dir)).1
    have hd₁ := hd.of_grows hgrows
    have ht : Touch dir q (d.makeDirectories (Path.plain dir)).2 _ :=
      .change (hgrows.le.kind? hk) f
    have hagrees := ht.agrees_of_settled hd₁ (d.settled_makeDirectories dir) hn
      (hgrows.le.site _ ▸ hne)
    rw [Disk.makeDirectories_setFile]
    obtain ⟨⟨made, d₁⟩, hmade⟩ : ∃ r, d.makeDirectories (Path.plain dir) = r := ⟨_, rfl⟩
    rw [hmade] at hd₁ ht hagrees ⊢
    cases made with
    | error cause => exact ⟨rfl, fun _ => rfl⟩
    | ok _ =>
      have hseen : seen (openMapped (d₁.setFile id f) (Path.join dir name) size) =
          seen (openMapped d₁ (Path.join dir name) size) :=
        seen_openMapped_of_agrees hd₁.toWellFormed (ht.tidy hd₁).toWellFormed ht.le hagrees size
      exact ⟨congrArg _ hseen, fun _ => hseen⟩

/-- A change at another place leaves what an entry shows as it was. -/
theorem Sited.sameView (h : e.Sited dir d) (hd : d.Tidy) (ht : Touch dir q d d')
    (hne : d.site e.backingPath ≠ q) : SameView dir d d' e := by
  cases h with
  | bound id hp hb hm =>
    have hagrees := ht.agrees_of_bound hd hb hne
    refine Undisturbed.sameView ⟨fun hid => ?_, fun hpath => ?_⟩ fun _ => ?_
    · rw [hid] at hm
      obtain rfl : _ = id := by simpa using hm
      exact hagrees.file_of_openToRead hb.openToRead
    · rw [hp, Option.some_inj] at hpath
      rw [← hpath]
      exact hagrees
    · have hseen : seen (mapFile d' e.backingPath e.size) =
          seen (mapFile d e.backingPath e.size) := by
        rw [mapFile_eq_openMapped hb.parent, mapFile_eq_openMapped (hb.mono ht.le).parent]
        exact seen_openMapped_of_agrees hd.toWellFormed (ht.tidy hd).toWellFormed ht.le hagrees _
      exact ⟨congrArg _ hseen, fun _ => hseen⟩
  | waiting name hn hj hp hm =>
    refine Undisturbed.sameView ⟨fun hid => ?_, fun hpath => ?_⟩ fun _ => ?_
    · rw [hm] at hid
      cases hid
    · rcases hp with hp | ⟨hp, hs⟩
      · rw [hp] at hpath
        cases hpath
      · rw [hp, Option.some_inj] at hpath
        rw [← hpath, hj]
        rw [hj] at hne
        exact ht.agrees_of_settled hd hs hn hne
    · rw [hj] at hne ⊢
      exact seen_mapFile_join hd ht hn hne e.size

/-- Whatever is done with one entry, another one with another place shows what it showed. -/
theorem Uses.sameView {e₁ e₁' e₂ : Entry} (hd : d.Tidy) (h : Uses dir d e₁ d' e₁')
    (h₂ : e₂.Sited dir d) (hne : d.site e₁.backingPath ≠ d.site e₂.backingPath) :
    SameView dir d d' e₂ := by
  have hmakes {d' : Disk} (h : Relation.ReflTransGen (Touch dir (d.site e₁.backingPath)) d d')
      (hm : (d.makeDirectories (Path.plain dir)).1 = .ok ()) :
      (d'.makeDirectories (Path.plain dir)).1 = .ok () := by
    induction h with
    | refl => exact hm
    | tail _ ht ih => exact ht.makeDirectories ih
  have hrun := h.touches
  clear h
  induction hrun with
  | refl => exact .refl dir d e₂
  | tail hbefore ht ih =>
    refine ih.trans ((h₂.touches hbefore).sameView (tidy_of_touches hd hbefore) ht ?_)
      (hmakes hbefore)
    rw [(le_of_touches hbefore).site]
    exact hne.symm

end Entry

end FileMesh
