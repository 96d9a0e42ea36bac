import FileMesh.Proofs.Completion
import FileMesh.Proofs.Serving

/-!
# What a delivery does to files

A delivery for a missing chunk opens the file and then writes the chunk, if it has the right size. A
file that is opened for the first time is cut or extended to the declared size. One that is mapped
is taken as it is, also if it got another length in the meantime, as long as its pages reach over
the chunk; otherwise the process would not get any further. Then the bytes of the chunk take the
place of its range, or nothing more happens, and no other file changes either way.
-/

namespace FileMesh

namespace Entry

variable {disk disk' : Disk} {e : Entry} {path : String} {id j : FileId} {size : Nat}

/-! ## Files that are opened -/

theorem content_openMapped (hd : disk.WellFormed) (h : openMapped disk path size = (.ok id, disk'))
    (j : FileId) :
    disk'.content j = if j = id then (disk.content j).resize size else disk.content j := by
  obtain ⟨disk₁, ho, -, rfl⟩ := openMapped_eq_ok_iff.1 h
  obtain ⟨-, hd₁, -, -, place, -, hk⟩ := Disk.openOrCreate_spec hd ho
  have hsame := Disk.content_openOrCreate ho j
  split
  · rename_i hj
    subst hj
    rw [Disk.content_setFile_setLength (hd₁.file_lt hk), hsame]
  · rename_i hj
    rw [Disk.content_setFile_of_ne (Ne.symm hj), hsame]

/-- Mapping a file cuts or extends it, and leaves every other file alone. -/
theorem content_mapFile (hd : disk.WellFormed) (h : mapFile disk path size = (.ok id, disk'))
    (j : FileId) :
    disk'.content j = if j = id then (disk.content j).resize size else disk.content j := by
  rw [mapFile] at h
  split at h
  · exact content_openMapped hd h j
  · rename_i parent _
    have hgrows := (disk.makeDirectories_spec parent).1
    split at h
    · cases h
    · rename_i disk₁ hmade
      rw [hmade] at hgrows
      rw [content_openMapped (hgrows.wellFormed hd) h j, hgrows.content]

/-- A file that can be read at a path is the one that is mapped there. -/
theorem content_of_read (hd : disk.WellFormed) (h : mapFile disk path size = (.ok id, disk'))
    {x : Bytes} (hread : disk.read path = .ok x) : disk.content id = x := by
  obtain ⟨id', ho, rfl⟩ := Disk.read_eq_ok_iff.1 hread
  have hbound := hd.bound_of_openToRead ho
  obtain ⟨hle, hbound', -, -⟩ := mapFile_spec hd h
  have hsame := hbound'.openToRead.symm.trans (hbound.mono hle).openToRead
  cases hsame
  rfl

/-! ## Entries that are opened -/

/-- A mapped entry has a path. -/
def Placed (e : Entry) : Prop := e.mapping ≠ none → e.path ≠ none

theorem placed_ofPeer (d : Descriptor) (destination : String) : (ofPeer d destination).Placed :=
  fun h => absurd rfl h

theorem placed_ofFile (d : Descriptor) (path : String) : (ofFile d path).Placed := nofun

theorem placed_opened (e : Entry) (id : FileId) : (e.opened id).Placed := nofun

theorem placed_save (disk : Disk) (e : Entry) : (e.save disk).2.1.Placed := fun h => absurd rfl h

/-- The bytes of a file once the entry is open: cut or extended, unless they are mapped already. -/
def bytesOpen (disk : Disk) (e : Entry) (id : FileId) : Bytes :=
  if e.isMapped then disk.content id else (disk.content id).resize e.size

/-- Opening the entry maps the file `id` and changes that file at most. -/
structure OpensTo (disk : Disk) (e : Entry) (disk' : Disk) (id : FileId) : Prop where
  openFile : e.openFile disk = (.ok (), e.opened id, disk')
  mapping : ∀ id', e.mapping = some id' → id' = id
  found : e.mapping = none → disk'.Bound e.backingPath id ∧
    ∀ x, disk.read e.backingPath = .ok x → disk.content id = x
  content : disk'.content id = e.bytesOpen disk id
  other : ∀ j, j ≠ id → disk'.content j = disk.content j

/-- If the entry is mapped, the pages of the file reach over chunk `i`. -/
def Covers (disk : Disk) (e : Entry) (i : ChunkIndex) : Prop :=
  ∀ id, e.mapping = some id →
    (disk.file id).Covers (e.descriptor.range i).start.toNat (e.descriptor.range i).length.toNat

/-- An entry whose file was opened can be touched in every chunk, and one that was mapped as before.
-/
theorem OpensTo.covers (h : e.OpensTo disk disk' id) {i : ChunkIndex} (hcovers : e.Covers disk i) :
    (e.opened id).Covers disk' i := by
  rintro _ ⟨⟩
  cases hm : e.mapping with
  | some id' =>
    obtain rfl := h.mapping id' hm
    have hlen : (disk'.file id').length = (disk.file id').length := by
      rw [← Disk.length_content, h.content, bytesOpen, isMapped, hm, ← Disk.length_content]
      rfl
    exact (FileContent.covers_congr hlen _ _).2 (hcovers id' hm)
  | none =>
    have hlen : (disk'.file id).length = e.size := by
      rw [← Disk.length_content, h.content, bytesOpen, isMapped, hm]
      exact Bytes.length_resize _ _
    exact FileContent.covers_of_le (hlen.symm ▸ e.descriptor.range_le i)

/-- An entry can be opened if it is mapped or its file can be. -/
theorem exists_opensTo (hd : disk.WellFormed) (hplaced : e.Placed)
    (hopen : e.mapping = none → ∃ id disk', mapFile disk e.backingPath e.size = (.ok id, disk')) :
    ∃ disk' id, e.OpensTo disk disk' id := by
  cases hm : e.mapping with
  | some id =>
    have hpath : e.path = some e.backingPath := by
      obtain ⟨path, hp⟩ := Option.ne_none_iff_exists'.1 (hplaced (by simp [hm]))
      rw [backingPath_of_path hp, hp]
    have hopened : e.opened id = e := by rw [opened, ← hpath, ← hm]
    refine ⟨disk, id, ?_, ?_, ?_, ?_, fun _ _ => rfl⟩
    · rw [Entry.openFile, hm, hopened]
    · intro id' h
      rw [hm] at h
      exact (Option.some.inj h).symm
    · intro h
      rw [hm] at h
      cases h
    · rw [bytesOpen, isMapped, hm]
      rfl
  | none =>
    obtain ⟨id, disk', hmap⟩ := hopen hm
    have hcontent := content_mapFile hd hmap
    refine ⟨disk', id, openFile_of_mapFile hm hmap, ?_, ?_, ?_, ?_⟩
    · intro id' h
      rw [hm] at h
      cases h
    · exact fun _ => ⟨(mapFile_spec hd hmap).2.1, fun x => content_of_read hd hmap⟩
    · rw [hcontent id, if_pos rfl, bytesOpen, isMapped, hm]
      rfl
    · intro j hj
      rw [hcontent j, if_neg hj]

end Entry

/-! ## Deliveries -/

namespace Relay

variable {disk : Disk} {e : Entry}

/-- Let the file of an entry be mapped, with pages that reach over the chunk, or be one that can be
opened and mapped. A delivery for a chunk that is verified changes nothing, and neither does one for
a chunk that there is not. Any other delivery leaves the entry mapped, with its path, and touches
nothing behind the pages of the file. If the size that it declares and the number of its bytes are
those of the chunk, the chunk is stored: the bytes take the place of its range in the file. If not,
that is what the answer says, and the file is as it was opened. No other file changes. -/
theorem accept_stores (hd : disk.WellFormed) (hplaced : e.Placed)
    (hopen : e.mapping = none →
      ∃ id disk', Entry.mapFile disk e.backingPath e.size = (.ok id, disk'))
    (chunk : ChunkData)
    (hcovers : ∀ i : ChunkIndex, chunk.chunkIndex.toNat = i.val → e.Covers disk i) :
    (e.verifyChunk disk chunk.chunkIndex.toNat = true →
      accept disk e chunk = (.alreadyVerified, e, disk)) ∧
    (chunkCount ≤ chunk.chunkIndex.toNat → accept disk e chunk = (.failed, e, disk)) ∧
    ∀ i : ChunkIndex, chunk.chunkIndex.toNat = i.val → e.verifyChunk disk i = false →
      ∃ outcome disk' id, accept disk e chunk = (outcome, e.opened id, disk') ∧
        (∀ id', e.mapping = some id' → id' = id) ∧
        (e.mapping = none → disk'.Bound e.backingPath id ∧
          ∀ x, disk.read e.backingPath = .ok x → disk.content id = x) ∧
        (e.opened id).Covers disk' i ∧
        (outcome = .stored ↔ e.descriptor.Fits i chunk) ∧
        (e.descriptor.Fits i chunk → disk'.content id =
          (e.bytesOpen disk id).overwrite (e.descriptor.range i).start.toNat chunk.data) ∧
        (¬ e.descriptor.Fits i chunk →
          outcome = .sizeMismatch (e.descriptor.range i).length.toNat chunk.declaredSize ∧
            disk'.content id = e.bytesOpen disk id) ∧
        ∀ j, j ≠ id → disk'.content j = disk.content j := by
  refine ⟨accept_of_verified, accept_of_le, fun i hi hv => ?_⟩
  obtain ⟨disk₁, id, h⟩ := Entry.exists_opensTo hd hplaced hopen
  have haccept := accept_of_openFile hi hv h.openFile
  have hreach := h.covers (hcovers i hi)
  by_cases hfits : e.descriptor.Fits i chunk
  · rw [if_pos ⟨hfits.declared, hfits.length⟩] at haccept
    have hmapped : (e.opened id).mapping = some id := rfl
    have hcontent := Entry.content_put disk₁ hmapped hfits.length
    refine ⟨_, _, id, haccept, h.mapping, ?_, ?_, iff_of_true rfl hfits, ?_, ?_, ?_⟩
    · intro hm
      obtain ⟨hbound, hread⟩ := h.found hm
      exact ⟨hbound.mono (disk₁.le_setFile _ _), hread⟩
    · rintro _ ⟨⟩
      refine (FileContent.covers_congr ?_ _ _).2 (hreach id rfl)
      rw [← Disk.length_content, hcontent, Bytes.length_overwrite, Disk.length_content]
    · intro _
      rw [hcontent, h.content]
    · exact fun hno => absurd hfits hno
    · intro j hj
      exact (Disk.content_put_of_ne disk₁ (Ne.symm hj) _ _).trans (h.other j hj)
  · rw [if_neg fun hs => hfits ⟨hi, hs.1, hs.2⟩] at haccept
    exact ⟨_, disk₁, id, haccept, h.mapping, h.found, hreach, iff_of_false nofun hfits,
      fun hf => absurd hf hfits, fun _ => ⟨rfl, h.content⟩, h.other⟩

/-- A file of twelve bytes is there where one of eight is declared. It is cut, and then one byte of
it is stored. -/
theorem accept_stores_cut :
    let d : Descriptor := ⟨"n", .zero, .replicate chunkCount .zero, 8⟩
    let prior : Bytes := [0, 1, 2, 3, 4, 5, 6, 7, 8, 9, 10, 11]
    let chunk : ChunkData := ⟨.zero, 2, 1, [0xFF]⟩
    ∃ disk, Disk.empty.write "n" prior = .ok disk ∧ disk.WellFormed ∧
      (Entry.ofPeer d "n").Placed ∧ d.Fits 2 chunk ∧
      (accept disk (.ofPeer d "n") chunk).1 = .stored ∧
      (accept disk (.ofPeer d "n") chunk).2.2.read "n" = .ok [0, 1, 0xFF, 3, 4, 5, 6, 7] := by
  intro d prior chunk
  obtain ⟨disk, hwrite, ho, hread, hadmits⟩ : ∃ disk, Disk.empty.write "n" prior = .ok disk ∧
      disk.openToRead "n" = .ok (.file 0) ∧ disk.read "n" = .ok prior ∧ disk.Admits 8 :=
    ⟨_, rfl, rfl, rfl, ⟨⟨by decide, rfl⟩, rfl⟩⟩
  have hwf := Disk.wellFormed_empty.write hwrite
  have hplaced := Entry.placed_ofPeer d "n"
  have hfits : d.Fits 2 chunk := ⟨rfl, by decide, by decide⟩
  have hmap := Entry.mapFile_of_bound (hwf.bound_of_openToRead ho) hadmits
  have hcovers (i : ChunkIndex) : (Entry.ofPeer d "n").Covers disk i := nofun
  obtain ⟨-, -, hmissing⟩ :=
    accept_stores hwf hplaced (fun _ => ⟨_, _, hmap⟩) chunk fun i _ => hcovers i
  obtain ⟨outcome, disk', id, haccept, -, hfound, -, hstored, hfile, -⟩ := hmissing 2 rfl rfl
  obtain ⟨hbound, hprior⟩ := hfound rfl
  have hopened : (Entry.ofPeer d "n").bytesOpen disk id = [0, 1, 2, 3, 4, 5, 6, 7] := by
    rw [Entry.bytesOpen, hprior prior hread]
    decide
  refine ⟨disk, hwrite, hwf, hplaced, hfits, ?_, ?_⟩
  · rw [haccept]
    exact hstored.2 hfits
  · have hread' : disk'.read "n" = .ok (disk'.content id) := hbound.read
    rw [haccept, hread', hfile hfits, hopened]
    decide

/-- A file that is mapped is not cut. Here a delivery of the wrong size maps a file of eight bytes,
and then twelve are written to it. When a chunk of it is stored, it still has twelve. -/
theorem accept_keeps_length :
    let d : Descriptor := ⟨"n", .zero, .replicate chunkCount .zero, 8⟩
    let prior : Bytes := [0, 1, 2, 3, 4, 5, 6, 7, 8, 9, 10, 11]
    let chunk : ChunkData := ⟨.zero, 2, 1, [0xFF]⟩
    let s := (accept .empty (.ofPeer d "n") ⟨.zero, 0, 0, []⟩).2
    let disk := s.2.setContent 0 prior
    s.2.write "n" prior = .ok disk ∧ disk.read "n" = .ok prior ∧
      s.1.mapping = some 0 ∧ s.1.path = some "n" ∧ s.1.verifyChunk disk 2 = false ∧
      d.Fits 2 chunk ∧ (accept disk s.1 chunk).1 = .stored ∧
      (accept disk s.1 chunk).2.2.read "n" = .ok [0, 1, 0xFF, 3, 4, 5, 6, 7, 8, 9, 10, 11] ∧
      (accept disk s.1 chunk).2.2.read "n" ≠
        .ok ((prior.resize 8).overwrite (d.range 2).start.toNat chunk.data) := by
  intro d prior chunk s disk
  have hopened : s = ((Entry.ofPeer d "n").opened 0, (Entry.mapFile .empty "n" 8).2) := by
    have hmap : Entry.mapFile .empty "n" 8 = (.ok 0, (Entry.mapFile .empty "n" 8).2) := rfl
    have hopen := Entry.openFile_of_mapFile (e := .ofPeer d "n") rfl hmap
    show (accept .empty (.ofPeer d "n") ⟨.zero, 0, 0, []⟩).2 = _
    rw [accept_of_openFile (i := 0) rfl rfl hopen, if_neg (by decide)]
  have hstored : (accept disk s.1 chunk).2.2.read "n" =
      .ok [0, 1, 0xFF, 3, 4, 5, 6, 7, 8, 9, 10, 11] := by decide +kernel
  refine ⟨?_, by decide +kernel, by rw [hopened]; rfl, by rw [hopened]; rfl, by decide +kernel,
    ⟨rfl, by decide, by decide⟩, by decide +kernel, hstored, ?_⟩
  · simp only [disk, hopened]
    rfl
  · rw [hstored]
    decide

end Relay

end FileMesh
