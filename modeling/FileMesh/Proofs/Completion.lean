import FileMesh.Proofs.Download
import FileMesh.Proofs.Opening

/-!
# Complete files

A file counts as complete if it matches as a whole or if every chunk does. A delivery is turned away
only if the chunk alone matches. So a complete file may still be written: if it matches as a whole
and the descriptor declares another hash for one of its chunks, then that chunk is missing for every
delivery, and whatever arrives for it is put into the file if the file can be mapped.
-/

namespace FileMesh

namespace Bytes

theorem length_overwrite (b : Bytes) (start : Nat) (data : Bytes) :
    (b.overwrite start data).length = b.length := by
  simp only [overwrite, List.length_append, List.length_take, List.length_drop]
  omega

theorem overwrite_nil (b : Bytes) (start : Nat) : b.overwrite start [] = b := by
  apply List.ext_getElem?
  intro i
  rw [getElem?_overwrite, if_neg (by simp only [List.length_nil]; omega)]

/-- There are other bytes of the same number. -/
theorem exists_ne_of_length_pos {b : Bytes} (h : 0 < b.length) :
    ∃ c : Bytes, c.length = b.length ∧ c ≠ b := by
  refine ⟨b.map (· + 1), List.length_map _, fun heq => ?_⟩
  have hhead := congrArg (·[0]?) heq
  simp only [List.getElem?_map, List.getElem?_eq_getElem h, Option.map_some,
    Option.some.injEq] at hhead
  exact absurd hhead (by simp)

end Bytes

theorem FileContent.mapped_eq_take (f : FileContent) {n : Nat} (h : n ≤ f.length) :
    f.mapped n = f.bytes.take n := by
  apply List.ext_getElem?
  intro i
  simp only [mapped, bytes, Bytes.getElem?_resize, List.getElem?_take]
  grind

namespace Descriptor

variable {d : Descriptor} {i : ChunkIndex} {chunk : ChunkData}

/-- The chunk has bytes, and a message can declare how many. -/
def Deliverable (d : Descriptor) (i : ChunkIndex) : Prop :=
  0 < (d.range i).length.toNat ∧ (d.range i).length.toNat < 2 ^ 32

theorem Fits.data_eq_nil (h : d.Fits i chunk) (hd : ¬ d.Deliverable i) : chunk.data = [] := by
  have hlt := chunk.declaredSize.toNat_lt
  rw [h.declared] at hlt
  have h0 : (d.range i).length.toNat = 0 := by
    by_contra hne
    exact hd ⟨Nat.pos_of_ne_zero hne, hlt⟩
  exact List.eq_nil_of_length_eq_zero (h.length.trans h0)

/-- Any bytes of the right number can be delivered for the chunk. -/
theorem Deliverable.exists_fits (h : d.Deliverable i) {data : Bytes}
    (hdata : data.length = (d.range i).length.toNat) :
    ∃ chunk, d.Fits i chunk ∧ chunk.data = data := by
  have hindices : ∀ i : ChunkIndex, (UInt32.ofNat i.val).toNat = i.val := by decide
  exact ⟨⟨.zero, UInt32.ofNat i.val, UInt32.ofNat (d.range i).length.toNat, data⟩,
    ⟨hindices i, UInt32.toNat_ofNat_of_lt' h.2, hdata⟩, rfl⟩

end Descriptor

/-! ## The file behind an entry -/

namespace Entry

variable {disk disk' : Disk} {e e' : Entry} {id : FileId} {i : ChunkIndex}

/-- The bytes of the file behind an entry: the file that is mapped, or else the one at the path. -/
def held? (disk : Disk) (e : Entry) : Option Bytes :=
  match e.mapping with
  | some id => some (disk.content id)
  | none => e.bytes? disk

/-- The entry has the file `id` mapped, which is at least as long as declared. -/
structure Maps (disk : Disk) (e : Entry) (id : FileId) : Prop where
  mapping : e.mapping = some id
  size_le : e.size ≤ (disk.content id).length

theorem Backed.maps (h : e.Backed disk id) (hm : e.mapping = some id) : e.Maps disk id :=
  ⟨hm, h.length_content.ge⟩

namespace Maps

theorem held?_eq (h : e.Maps disk id) : e.held? disk = some (disk.content id) := by
  rw [held?, h.mapping]

theorem openFile (h : e.Maps disk id) : e.openFile disk = (.ok (), e, disk) := by
  rw [Entry.openFile, h.mapping]

theorem verifyChunk_iff (h : e.Maps disk id) (i : ChunkIndex) :
    e.verifyChunk disk i = true ↔ e.descriptor.Matches (disk.content id) i := by
  have hrange : (e.descriptor.range i).start.toNat + (e.descriptor.range i).length.toNat ≤
      (disk.file id).length :=
    (e.descriptor.range_le i).trans (h.size_le.trans_eq (disk.length_content id))
  have hchunk : e.chunk? disk i = some (e.descriptor.chunkOf (disk.content id) i) := by
    rw [chunk?, h.mapping]
    exact congrArg some (FileContent.range_eq_slice _ hrange)
  rw [Entry.verifyChunk_iff, hchunk]
  simp only [Option.some.injEq, exists_eq_left']
  exact Iff.rfl

theorem wholeMatches_iff (h : e.Maps disk id) : e.WholeMatches disk ↔
    .ofContent ((disk.content id).take e.size) = e.descriptor.hash := by
  have hlen : e.size ≤ (disk.file id).length := h.size_le.trans_eq (disk.length_content id)
  rw [WholeMatches, h.mapping]
  dsimp only
  rw [FileContent.mapped_eq_take _ hlen]
  rfl

theorem of_content_eq (h : e.Maps disk id) (hc : disk'.content id = disk.content id) :
    e.Maps disk' id :=
  ⟨h.mapping, by rw [hc]; exact h.size_le⟩

end Maps

/-- Opening the entry maps the file behind it, which matches as a whole, and leaves its bytes. -/
structure Reveals (disk : Disk) (e : Entry) (disk' : Disk) (e' : Entry) (id : FileId) :
    Prop where
  openFile : e.openFile disk = (.ok (), e', disk')
  maps : e'.Maps disk' id
  descriptor : e'.descriptor = e.descriptor
  held : e.held? disk = some (disk'.content id)
  verifyChunk_iff : ∀ i : ChunkIndex,
    e.verifyChunk disk i = true ↔ e.descriptor.Matches (disk'.content id) i
  whole : e'.WholeMatches disk'

theorem Reveals.verifyChunk_eq (h : e.Reveals disk disk' e' id) (i : ChunkIndex) :
    e'.verifyChunk disk' i = e.verifyChunk disk i := by
  rw [Bool.eq_iff_iff, h.maps.verifyChunk_iff, h.verifyChunk_iff, h.descriptor]

/-- The file at the path of the entry matches as a whole and cannot be mapped. -/
structure Unmappable (disk : Disk) (e : Entry) (id : FileId) : Prop where
  wellFormed : disk.WellFormed
  mapping : e.mapping = none
  file : ∃ path, e.path = some path ∧ disk.openToRead path = .ok (.file id)
  length : (disk.content id).length = e.size
  hash : .ofContent (disk.content id) = e.descriptor.hash
  refused : ¬ disk.Admits e.size

namespace Unmappable

theorem wholeMatches (h : e.Unmappable disk id) : e.WholeMatches disk := by
  rw [WholeMatches, h.mapping]
  obtain ⟨path, hp, ho⟩ := h.file
  exact ⟨path, id, hp, ho, h.length, h.hash⟩

theorem held?_eq (h : e.Unmappable disk id) : e.held? disk = some (disk.content id) := by
  obtain ⟨path, hp, ho⟩ := h.file
  rw [held?, h.mapping]
  dsimp only
  rw [bytes?, hp, Option.bind_some, (h.wellFormed.bound_of_openToRead ho).read]
  rfl

/-- Opening it fails and changes no byte: it has the declared size before it is mapped. -/
theorem openFile (h : e.Unmappable disk id) : ∃ cause disk',
    e.openFile disk = (.error cause, e, disk') ∧ e.Unmappable disk' id ∧
      disk'.content id = disk.content id := by
  obtain ⟨path, hp, ho⟩ := h.file
  have hbound := h.wellFormed.bound_of_openToRead ho
  have hsame := Disk.content_mapSized hbound.lt h.length
  have hle := disk.le_mapSized id e.size
  obtain ⟨cause, hopen⟩ := openFile_of_not_admits h.wellFormed h.mapping hp ho h.refused
  refine ⟨cause, _, hopen, ?_, hsame⟩
  exact {
    wellFormed := h.wellFormed.mapSized id e.size
    mapping := h.mapping
    file := ⟨path, hp, (hbound.mono hle).openToRead⟩
    length := by rw [hsame, h.length]
    hash := by rw [hsame, h.hash]
    refused := fun hadmits => h.refused
      ⟨⟨hadmits.le, hle.system ▸ hadmits.length⟩, hle.system ▸ hadmits.mapping⟩ }

end Unmappable

/-- A file that matches as a whole can be opened for what it is, unless it cannot be mapped. -/
theorem reveals_of_wholeMatches (hd : disk.WellFormed)
    (hmapped : ∀ id, e.mapping = some id → e.size ≤ (disk.content id).length)
    (hw : e.WholeMatches disk) :
    (e.mapping = none → disk.Admits e.size) ∧ (∃ disk' e' id, e.Reveals disk disk' e' id) ∨
      ¬ (e.mapping = none → disk.Admits e.size) ∧ ∃ id, e.Unmappable disk id := by
  cases hm : e.mapping with
  | some id =>
    have hmaps : e.Maps disk id := ⟨hm, hmapped id hm⟩
    exact .inl ⟨nofun, disk, e, id, hmaps.openFile, hmaps, rfl, hmaps.held?_eq,
      hmaps.verifyChunk_iff, hw⟩
  | none =>
    have hpath := hw
    rw [WholeMatches, hm] at hpath
    obtain ⟨path, id, hp, ho, hlen, hhash⟩ := hpath
    by_cases hsize : disk.Admits e.size
    · have hbacking := backingPath_of_path hp
      have hbacked : e.Backed disk id := {
        path := hbacking ▸ hp
        bound := hbacking ▸ hd.bound_of_openToRead ho
        mapping := .inl hm
        length := (disk.length_content id).symm.trans hlen
        admits := hsize }
      obtain ⟨disk', hopens, hsame⟩ := hbacked.opens
      refine .inl ⟨fun _ => hsize, disk', e.opened id, id, hopens.openFile,
        hopens.backed.maps rfl, rfl, ?_, ?_, ?_⟩
      · rw [held?, hm, hsame]
        exact hbacked.bytes?_eq
      · rw [hsame]
        exact hbacked.verifyChunk_iff
      · rw [hopens.backed.wholeMatches_iff, hsame]
        exact hhash
    · exact .inr ⟨fun h => hsize (h rfl), id, hd, hm, ⟨path, hp, ho⟩, hlen, hhash, hsize⟩

end Entry

namespace Relay

variable {disk disk' : Disk} {e e' : Entry} {id : FileId} {i : ChunkIndex} {chunk : ChunkData}
  {chunks : List ChunkData}

/-! ## Deliveries to a file that is mapped -/

/-- A delivery for a missing chunk is put into the file if it has the size. -/
theorem accept_of_maps (h : e.Maps disk id) (hi : chunk.chunkIndex.toNat = i.val)
    (hv : e.verifyChunk disk i = false) : ∃ disk', (accept disk e chunk).2 = (e, disk') ∧
      e.Maps disk' id ∧ (e.descriptor.Fits i chunk → disk'.content id =
        (disk.content id).overwrite (e.descriptor.range i).start.toNat chunk.data) ∧
      (¬ e.descriptor.Fits i chunk → disk'.content id = disk.content id) := by
  rw [accept_of_openFile hi hv h.openFile]
  split
  · rename_i hs
    have hcontent := Entry.content_put (r := e.descriptor.range i) disk h.mapping hs.2
    refine ⟨_, rfl, ⟨h.mapping, ?_⟩, fun _ => hcontent, fun hno => ?_⟩
    · rw [hcontent, Bytes.length_overwrite]
      exact h.size_le
    · exact absurd ⟨hi, hs.1, hs.2⟩ hno
  · rename_i hs
    exact ⟨disk, rfl, h, fun hf => absurd ⟨hf.declared, hf.length⟩ hs, fun _ => rfl⟩

/-- Where every chunk for which bytes can arrive is verified, a delivery leaves the file. -/
theorem content_accept (h : e.Maps disk id)
    (hs : ∀ i, e.descriptor.Deliverable i → e.descriptor.Matches (disk.content id) i)
    (chunk : ChunkData) : ∃ disk', (accept disk e chunk).2 = (e, disk') ∧
      disk'.content id = disk.content id := by
  rcases accept_eq_or_missing disk e chunk with hsame | ⟨i, hi, hv⟩
  · exact ⟨disk, hsame, rfl⟩
  · obtain ⟨disk', haccept, -, hfits, hother⟩ := accept_of_maps h hi hv
    refine ⟨disk', haccept, ?_⟩
    by_cases hf : e.descriptor.Fits i chunk
    · -- The chunk is missing, so no bytes can arrive for it.
      have hno : ¬ e.descriptor.Deliverable i := by
        intro hdeliverable
        rw [(h.verifyChunk_iff i).2 (hs i hdeliverable)] at hv
        cases hv
      rw [hfits hf, hf.data_eq_nil hno, Bytes.overwrite_nil]
    · exact hother hf

theorem run_accept_cons (chunk : ChunkData) (chunks : List ChunkData) (disk : Disk) (e : Entry) :
    run ((chunk :: chunks).map .accept) (e, disk) =
      run (chunks.map .accept) (accept disk e chunk).2 := rfl

theorem content_run (h : e.Maps disk id)
    (hs : ∀ i, e.descriptor.Deliverable i → e.descriptor.Matches (disk.content id) i)
    (chunks : List ChunkData) : ∃ disk', run (chunks.map .accept) (e, disk) = (e, disk') ∧
      disk'.content id = disk.content id := by
  induction chunks generalizing disk with
  | nil => exact ⟨disk, rfl, rfl⟩
  | cons chunk chunks ih =>
    obtain ⟨disk₁, haccept, hsame₁⟩ := content_accept h hs chunk
    obtain ⟨disk₂, hrun, hsame₂⟩ := ih (h.of_content_eq hsame₁) (by rwa [hsame₁])
    refine ⟨disk₂, ?_, hsame₂.trans hsame₁⟩
    rw [run_accept_cons, haccept, hrun]

/-! ## Deliveries that change nothing -/

theorem run_of_accept_eq (h : ∀ chunk, (accept disk e chunk).2 = (e, disk))
    (chunks : List ChunkData) : run (chunks.map .accept) (e, disk) = (e, disk) := by
  induction chunks with
  | nil => rfl
  | cons chunk chunks ih => rw [run_accept_cons, h chunk, ih]

/-- Nothing arrives where every chunk is verified. -/
theorem run_of_verified (h : ∀ i : ChunkIndex, e.verifyChunk disk i = true)
    (chunks : List ChunkData) : run (chunks.map .accept) (e, disk) = (e, disk) := by
  refine run_of_accept_eq (fun chunk => ?_) chunks
  refine (accept_eq_or_missing disk e chunk).resolve_right ?_
  rintro ⟨i, -, hv⟩
  rw [h i] at hv
  cases hv

/-- Nothing arrives where the file cannot be mapped. -/
theorem run_of_unmappable (h : e.Unmappable disk id) (chunks : List ChunkData) :
    ∃ disk', run (chunks.map .accept) (e, disk) = (e, disk') ∧ e.Unmappable disk' id ∧
      disk'.content id = disk.content id := by
  induction chunks generalizing disk with
  | nil => exact ⟨disk, rfl, h, rfl⟩
  | cons chunk chunks ih =>
    rw [run_accept_cons]
    rcases accept_eq_or_missing disk e chunk with hsame | ⟨i, hi, hv⟩
    · rw [hsame]
      exact ih h
    · obtain ⟨cause, disk₁, ho, h₁, hsame₁⟩ := h.openFile
      rw [accept_of_refused hi hv ho]
      obtain ⟨disk₂, hrun, h₂, hsame₂⟩ := ih h₁
      exact ⟨disk₂, hrun, h₂, hsame₂.trans hsame₁⟩

/-! ## Complete files -/

/-- What arrives for a missing chunk arrives in the file that is mapped for it. -/
theorem accept_of_reveals (h : e.Reveals disk disk' e' id) (hi : chunk.chunkIndex.toNat = i.val)
    (hv : e.verifyChunk disk i = false) : accept disk e chunk = accept disk' e' chunk := by
  have hv' := (h.verifyChunk_eq i).trans hv
  rw [accept_of_openFile hi hv h.openFile, accept_of_openFile hi hv' h.maps.openFile, h.descriptor]

/-- Where every chunk for which bytes can arrive is verified, a run of deliveries leaves the file
and what a check says of the whole. -/
theorem run_of_reveals (h : e.Reveals disk disk' e' id)
    (hs : ∀ i, e.descriptor.Deliverable i → e.verifyChunk disk i = true)
    (chunks : List ChunkData) : run (chunks.map .accept) (e, disk) = (e, disk) ∨
      ∃ disk'', run (chunks.map .accept) (e, disk) = (e', disk'') ∧
        disk''.content id = disk'.content id := by
  have hs' : ∀ i, e'.descriptor.Deliverable i → e'.descriptor.Matches (disk'.content id) i := by
    rw [h.descriptor]
    exact fun i hi => (h.verifyChunk_iff i).1 (hs i hi)
  induction chunks with
  | nil => exact .inl rfl
  | cons chunk chunks ih =>
    rcases accept_eq_or_missing disk e chunk with hsame | ⟨i, hi, hv⟩
    · rw [run_accept_cons, hsame]
      exact ih
    · -- The first missing chunk maps the file; the rest of the run has a mapped file to leave.
      rw [run_accept_cons, accept_of_reveals h hi hv, ← run_accept_cons]
      exact .inr (content_run h.maps hs' (chunk :: chunks))

/-- A delivery that changes a file: other bytes for a chunk that is missing. -/
theorem exists_accept_ne (h : e.Reveals disk disk' e' id) (hd : e.descriptor.Deliverable i)
    (hv : e.verifyChunk disk i = false) :
    ∃ chunk, (accept disk e chunk).2.1.held? (accept disk e chunk).2.2 ≠ e.held? disk := by
  rw [← h.descriptor] at hd
  have hrange := e'.descriptor.range_le i
  have hsize : e'.descriptor.size.toNat ≤ (disk'.content id).length := h.maps.size_le
  have hlen : (e'.descriptor.chunkOf (disk'.content id) i).length =
      (e'.descriptor.range i).length.toNat := by
    rw [Descriptor.chunkOf, Bytes.length_slice]
    omega
  obtain ⟨data, hdata, hne⟩ := Bytes.exists_ne_of_length_pos (hlen.symm ▸ hd.1)
  rw [hlen] at hdata
  obtain ⟨chunk, hfits, rfl⟩ := hd.exists_fits hdata
  have hv' := (h.verifyChunk_eq i).trans hv
  obtain ⟨disk'', haccept, hmaps, hput, -⟩ := accept_of_maps h.maps hfits.index hv'
  refine ⟨chunk, fun heq => ?_⟩
  rw [accept_of_reveals h hfits.index hv, haccept, h.held, hmaps.held?_eq, hput hfits,
    Option.some.injEq] at heq
  have hslice : ((disk'.content id).overwrite (e'.descriptor.range i).start.toNat chunk.data).slice
      (e'.descriptor.range i).start.toNat chunk.data.length = chunk.data :=
    Bytes.slice_overwrite_self (by omega)
  rw [heq, hdata] at hslice
  exact hne hslice.symm

/-- Once every chunk is verified, deliveries leave an entry and the disk as they are. A file that is
complete stays so, with its bytes, whatever arrives, just when it cannot be mapped or every chunk
for which bytes can arrive is verified alone: a file that matches only as a whole can be written by
any peer. -/
theorem complete_stays_iff (disk : Disk) (e : Entry) :
    ((∀ i : ChunkIndex, e.verifyChunk disk i = true) →
      ∀ chunks : List ChunkData, run (chunks.map .accept) (e, disk) = (e, disk)) ∧
    (disk.WellFormed →
      (∀ id, e.mapping = some id → e.size ≤ (disk.content id).length) →
      (e.verify disk).isComplete = true →
      ((∀ (chunks : List ChunkData) e' disk', run (chunks.map .accept) (e, disk) = (e', disk') →
          e'.held? disk' = e.held? disk ∧ (e'.verify disk').isComplete = true) ↔
        ((e.mapping = none → disk.Admits e.size) →
          ∀ i, e.descriptor.Deliverable i → e.verifyChunk disk i = true))) := by
  refine ⟨run_of_verified, fun hd hmapped hcomplete => ?_⟩
  by_cases hall : ∀ i : ChunkIndex, e.verifyChunk disk i = true
  · refine iff_of_true (fun chunks e' disk' hrun => ?_) fun _ i _ => hall i
    rw [run_of_verified hall, Prod.mk.injEq] at hrun
    rw [← hrun.1, ← hrun.2]
    exact ⟨rfl, hcomplete⟩
  · have hwhole := ((Entry.isComplete_verify disk e).1 hcomplete).resolve_right hall
    rcases Entry.reveals_of_wholeMatches hd hmapped hwhole with
      ⟨hopens, disk₁, e₁, id, h⟩ | ⟨hrefused, id, h⟩
    · constructor
      · intro hstays _ i hi
        by_contra hv
        obtain ⟨chunk, hne⟩ := exists_accept_ne h hi (Bool.eq_false_iff.2 hv)
        exact hne (hstays [chunk] _ _ rfl).1
      · intro hs chunks e' disk' hrun
        rcases run_of_reveals h (hs hopens) chunks with hsame | ⟨disk₂, hsame, hcontent⟩
        · rw [hsame, Prod.mk.injEq] at hrun
          rw [← hrun.1, ← hrun.2]
          exact ⟨rfl, hcomplete⟩
        · rw [hsame, Prod.mk.injEq] at hrun
          obtain ⟨rfl, rfl⟩ := hrun
          have hmaps := h.maps.of_content_eq hcontent
          refine ⟨?_, (Entry.isComplete_verify _ _).2 (.inl ?_)⟩
          · rw [hmaps.held?_eq, hcontent, h.held]
          · rw [hmaps.wholeMatches_iff, hcontent, ← h.maps.wholeMatches_iff]
            exact h.whole
    · refine iff_of_true (fun chunks e' disk' hrun => ?_) fun hopens => absurd hopens hrefused
      obtain ⟨disk₁, hsame, h₁, hcontent⟩ := run_of_unmappable h chunks
      rw [hsame, Prod.mk.injEq] at hrun
      obtain ⟨rfl, rfl⟩ := hrun
      refine ⟨?_, (Entry.isComplete_verify _ _).2 (.inl h₁.wholeMatches)⟩
      rw [h₁.held?_eq, hcontent, h.held?_eq]

/-- A peer may declare chunk hashes that no chunk has. The file is complete when it has the declared
hash, and the next delivery can change it. -/
theorem complete_changes_of_other_chunks :
    let d := { Descriptor.ofContent "n" (Bytes.zeros 512) with
      chunkHashes := .replicate chunkCount .zero }
    ∃ t e disk' e₁ disk₁, Accepted (.empty "") t d e .empty disk' 0 ∧
      run [.accept ⟨d.hash, 0, 64, Bytes.zeros 64⟩] (e, .empty) = (e₁, disk₁) ∧
      disk₁.WellFormed ∧ (∀ id, e₁.mapping = some id → e₁.size ≤ (disk₁.content id).length) ∧
      (e₁.verify disk₁).isComplete = true ∧ d.Deliverable 0 ∧ e₁.verifyChunk disk₁ 0 = false ∧
      ∃ (chunks : List ChunkData) (e₂ : Entry) (disk₂ : Disk),
        run (chunks.map .accept) (e₁, disk₁) = (e₂, disk₂) ∧
        ¬ (e₂.held? disk₂ = e₁.held? disk₁ ∧ (e₂.verify disk₂).isComplete = true) := by
  intro d
  have hs : d.size = 512 := by decide +kernel
  have hz : d.hash ≠ .zero := by
    rw [show d.hash = _ from ofContent_zeros]
    decide
  have hlen : (Bytes.zeros 64).length = (d.range 0).length.toNat := by
    rw [Descriptor.range, hs]
    decide
  obtain ⟨t, disk', h, hzeros⟩ := accepted_of_name (d := d) rfl hs hz
  have hopens := h.opens
  obtain ⟨e₁, he₁⟩ : ∃ e₁, e₁ = (Entry.ofPeer d "n").opened 0 := ⟨_, rfl⟩
  obtain ⟨disk₁, hdisk₁⟩ : ∃ disk₁, disk₁ = e₁.put disk' (d.range 0) 0 (Bytes.zeros 64) := ⟨_, rfl⟩
  have hm : e₁.mapping = some 0 := by
    rw [he₁]
    rfl
  have hd : e₁.descriptor = d := by
    rw [he₁]
    rfl
  have hrun : run [.accept ⟨d.hash, 0, 64, Bytes.zeros 64⟩] (.ofPeer d "n", .empty) =
      (e₁, disk₁) := by
    have haccept : accept .empty (.ofPeer d "n") ⟨d.hash, 0, 64, Bytes.zeros 64⟩ = _ :=
      accept_of_openFile (i := 0) rfl (verifyChunk_ofPeer .empty d "n" 0) hopens.openFile
    rw [if_pos ⟨hlen, hlen⟩, ← he₁] at haccept
    rw [hdisk₁]
    exact congrArg Prod.snd haccept
  have hwf : disk₁.WellFormed := by
    rw [hdisk₁, Entry.put, hm]
    exact h.wellFormed_mapped.setFile 0 _
  have hbacked : e₁.Backed disk₁ 0 := by
    rw [hdisk₁]
    exact (he₁ ▸ hopens.backed).put hm _ _ _
  have hcontent : disk₁.content 0 = Bytes.zeros 512 := by
    rw [hdisk₁, Entry.content_put disk' hm hlen, hzeros, Descriptor.range, hs]
    decide +kernel
  have hmapped : ∀ id, e₁.mapping = some id → e₁.size ≤ (disk₁.content id).length := by
    intro id hid
    obtain rfl : 0 = id := Option.some.inj (hm.symm.trans hid)
    exact (hbacked.maps hm).size_le
  have hcomplete : (e₁.verify disk₁).isComplete = true := by
    refine hbacked.isComplete_iff.2 (.inl ?_)
    rw [hcontent, hd]
    rfl
  have hdeliverable : d.Deliverable 0 := by
    rw [Descriptor.Deliverable, ← hlen]
    decide
  have hmissing : e₁.verifyChunk disk₁ 0 = false := by
    rw [Bool.eq_false_iff]
    intro hv
    have hmatch := (hbacked.verifyChunk_iff 0).1 hv
    rw [hcontent, hd, Descriptor.Matches, chunkOf_zeros hs] at hmatch
    exact absurd hmatch (by decide +kernel)
  refine ⟨t, _, disk', e₁, disk₁, h, hrun, hwf, hmapped, hcomplete, hdeliverable, hmissing, ?_⟩
  by_contra hno
  push Not at hno
  have hv : e₁.verifyChunk disk₁ 0 = true :=
    ((complete_stays_iff disk₁ e₁).2 hwf hmapped hcomplete).1 hno (fun _ => hbacked.admits) 0
      (hd ▸ hdeliverable)
  rw [hmissing] at hv
  cases hv

end Relay

end FileMesh
