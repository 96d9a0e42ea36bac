import FileMesh.Proofs.Disk.Mapping
import FileMesh.Proofs.Verification

/-!
# Entries that have their file

An entry has its file when the file stands at its path with the declared size. Whether the file is
mapped makes no difference then: opening and saving change no byte, and a check sees the bytes of
the file either way.
-/

namespace FileMesh.Entry

variable {disk disk' : Disk} {e : Entry} {id : FileId} {i : ChunkIndex}

/-- The bytes of the file at the path of the entry. -/
def bytes? (disk : Disk) (e : Entry) : Option Bytes :=
  e.path.bind fun path => (disk.read path).toOption

/-- The entry has the file `id` at its path, with the declared size, mapped or not. -/
structure Backed (disk : Disk) (e : Entry) (id : FileId) : Prop where
  path : e.path = some e.backingPath
  bound : disk.Bound e.backingPath id
  mapping : e.mapping = none ∨ e.mapping = some id
  length : (disk.file id).length = e.size
  admits : disk.Admits e.size

/-- The entry once its file is mapped. -/
def opened (e : Entry) (id : FileId) : Entry :=
  { e with path := some e.backingPath, mapping := some id }

/-- Opening gives the entry the file `id`. -/
structure Opens (disk : Disk) (e : Entry) (disk' : Disk) (id : FileId) : Prop where
  openFile : e.openFile disk = (.ok (), e.opened id, disk')
  backed : (e.opened id).Backed disk' id

theorem openFile_of_unmapped (hm : e.mapping = none) (disk : Disk) : e.openFile disk =
    match mapFile disk e.backingPath e.size with
      | (.error cause, disk) => (.error (.io cause), { e with path := some e.backingPath }, disk)
      | (.ok id, disk) => (.ok (), e.opened id, disk) := by
  unfold openFile
  split
  · rename_i id' hid
    rw [hm] at hid
    cases hid
  · rfl

theorem openFile_of_mapFile (hm : e.mapping = none)
    (h : mapFile disk e.backingPath e.size = (.ok id, disk')) :
    e.openFile disk = (.ok (), e.opened id, disk') := by
  rw [openFile_of_unmapped hm, h]

namespace Backed

theorem length_content (h : e.Backed disk id) :
    (disk.content id).length = e.descriptor.size.toNat :=
  (disk.length_content id).trans h.length

theorem bytes?_eq (h : e.Backed disk id) : e.bytes? disk = some (disk.content id) := by
  rw [bytes?, h.path, Option.bind_some, h.bound.read]
  rfl

theorem mapped (h : e.Backed disk id) : (disk.file id).mapped e.size = disk.content id := by
  rw [← h.length]
  exact (disk.file id).mapped_length

/-- A range of the mapping is the chunk of the file. -/
theorem rangeOf_eq (h : e.Backed disk id) (i : ChunkIndex) :
    rangeOf (disk.file id) (e.descriptor.range i) = e.descriptor.chunkOf (disk.content id) i := by
  rw [rangeOf, FileContent.range_eq_slice _ (e.descriptor.range_le i)]
  exact congrArg (fun b : Bytes => b.slice _ _) h.mapped

/-! ## Checks -/

theorem chunk?_eq (h : e.Backed disk id) (i : ChunkIndex) :
    e.chunk? disk i = some (e.descriptor.chunkOf (disk.content id) i) := by
  have hle := e.descriptor.range_le i
  have hlen := h.length_content
  have hoff : e.descriptor.size.toNat ≤ Disk.largestOffset := h.admits.le
  rw [chunk?]
  rcases h.mapping with hm | hm
  · simp only [hm, h.path, Option.map_some, h.bound.openToRead]
    exact if_pos ⟨by omega, by omega⟩
  · simp only [hm]
    exact congrArg some (h.rangeOf_eq i)

theorem verifyChunk_iff (h : e.Backed disk id) (i : ChunkIndex) :
    e.verifyChunk disk i = true ↔ e.descriptor.Matches (disk.content id) i := by
  rw [Entry.verifyChunk_iff, h.chunk?_eq]
  simp only [Option.some.injEq, exists_eq_left']
  exact Iff.rfl

theorem wholeMatches_iff (h : e.Backed disk id) :
    e.WholeMatches disk ↔ .ofContent (disk.content id) = e.descriptor.hash := by
  rw [WholeMatches]
  rcases h.mapping with hm | hm
  · simp only [hm, h.path]
    constructor
    · rintro ⟨path, id', hp, hr, -, hw⟩
      cases hp
      rw [h.bound.openToRead] at hr
      cases hr
      exact hw
    · intro hw
      exact ⟨_, id, rfl, h.bound.openToRead, h.length_content, hw⟩
  · simp only [hm]
    rw [h.mapped]

theorem has_verify (h : e.Backed disk id) (i : ChunkIndex) : (e.verify disk).has i = true ↔
    .ofContent (disk.content id) = e.descriptor.hash ∨
      e.descriptor.Matches (disk.content id) i := by
  rw [Entry.has_verify, h.wholeMatches_iff, h.verifyChunk_iff]

theorem isComplete_iff (h : e.Backed disk id) : (e.verify disk).isComplete = true ↔
    .ofContent (disk.content id) = e.descriptor.hash ∨
      ∀ i, e.descriptor.Matches (disk.content id) i := by
  rw [isComplete_verify, h.wholeMatches_iff]
  exact or_congr_right (forall_congr' h.verifyChunk_iff)

/-! ## Opening, saving and writing -/

theorem opened_eq (h : e.Backed disk id) (hm : e.mapping = some id) : e.opened id = e := by
  rw [opened, ← h.path, ← hm]

/-- Opening maps the file and changes no byte. -/
theorem opens (h : e.Backed disk id) :
    ∃ disk', e.Opens disk disk' id ∧ disk'.content id = disk.content id := by
  rcases h.mapping with hm | hm
  · have hfile : (disk.setFile id ((disk.file id).setLength e.size)).file id =
        (disk.file id).setLength e.size := Disk.file_setFile_of_lt h.bound.lt _
    refine ⟨disk.setFile id ((disk.file id).setLength e.size), ⟨?_, ?_⟩, ?_⟩
    · exact openFile_of_mapFile hm (mapFile_of_bound h.bound h.admits)
    · exact {
        path := rfl
        bound := h.bound.mono (disk.le_setFile id _)
        mapping := .inr rfl
        length := by rw [hfile]; rfl
        admits := h.admits.mono (disk.le_setFile id _) }
    · rw [Disk.content, hfile, FileContent.bytes_setLength, ← h.length, ← FileContent.length_bytes,
        Bytes.resize_length]
      rfl
  · have ho : e.openFile disk = (.ok (), e, disk) := by rw [openFile, hm]
    refine ⟨disk, ⟨?_, ?_⟩, rfl⟩
    · rw [h.opened_eq hm, ho]
    · rw [h.opened_eq hm]
      exact h

/-- Reading a chunk gives the bytes of the file and changes none. -/
theorem readChunk (h : e.Backed disk id) (i : ChunkIndex) : ∃ disk',
    e.readChunk disk i = (.ok (e.descriptor.chunkOf (disk.content id) i), e.opened id, disk') ∧
      (e.opened id).Backed disk' id ∧ disk'.content id = disk.content id := by
  obtain ⟨disk', ho, hsame⟩ := h.opens
  refine ⟨disk', ?_, ho.backed, hsame⟩
  have hr : e.descriptor.chunkRange? i = some (e.descriptor.range i) :=
    Descriptor.chunkRange?_of_eq rfl
  have hview : view disk' (e.opened id) (e.descriptor.range i) =
      e.descriptor.chunkOf (disk.content id) i := by
    rw [← hsame]
    exact ho.backed.rangeOf_eq i
  simp only [Entry.readChunk, openChunk, hr, ho.openFile, Except.map, hview]

theorem save (h : e.Backed disk id) : (e.save disk).2.1.Backed (e.save disk).2.2 id := by
  have hlen : ((e.save disk).2.2.file id).length = (disk.file id).length := by
    rw [← Disk.length_content, content_save, Disk.length_content]
  have hle : disk.Le (e.save disk).2.2 := by
    rw [Entry.save, writeOut]
    split
    · exact disk.le_setFile _ _
    · exact .refl disk
  exact {
    path := h.path
    bound := h.bound.mono hle
    mapping := .inl rfl
    length := hlen.trans h.length
    admits := h.admits.mono hle }

theorem put (h : e.Backed disk id) (hm : e.mapping = some id) (r : ChunkRange) (offset : Nat)
    (data : Bytes) : e.Backed (e.put disk r offset data) id := by
  rw [Entry.put, hm]
  exact {
    path := h.path
    bound := h.bound.mono (disk.le_setFile _ _)
    mapping := .inr hm
    length := by
      simp only [Disk.put]
      rw [Disk.file_setFile_of_lt h.bound.lt, FileContent.length_put, h.length]
    admits := h.admits.mono (disk.le_setFile _ _) }

end Backed

/-- An entry whose file can be mapped gets it by opening. -/
theorem opens_of_mapFile (hd : disk.WellFormed) (hm : e.mapping = none)
    (h : mapFile disk e.backingPath e.size = (.ok id, disk')) : e.Opens disk disk' id := by
  obtain ⟨-, hbound, hlen, hadmits⟩ := mapFile_spec hd h
  exact ⟨openFile_of_mapFile hm h, rfl, hbound, .inr rfl, hlen, hadmits⟩

theorem content_put {r : ChunkRange} {data : Bytes} (disk : Disk) (hm : e.mapping = some id)
    (hdata : data.length = r.length.toNat) :
    (e.put disk r 0 data).content id = (disk.content id).overwrite r.start.toNat data := by
  rw [put, hm]
  simp only [Nat.add_zero, Nat.sub_zero]
  rw [List.take_of_length_le (Nat.le_of_eq hdata), Disk.content_put]

end FileMesh.Entry
