import FileMesh.Proofs.Lodging
import FileMesh.Proofs.View

/-!
# Files of different entries

Every entry of a store has a place for its file. For an entry of a file of this host it is where
the path leads, for a peer's entry the directory for files and the last name in the declared one.
What is done with one entry is not seen by another one with another place. But the place does not
depend on the hash: two contents that are declared under the same last name share a file, and
opening the one cuts or extends the file of the other.
-/

namespace FileMesh

namespace Entry

variable {disk disk' : Disk} {e e' e₁ e₂ : Entry} {path : String} {id id' : FileId} {size : Nat}

/-! ## Opening a file that is there -/

theorem file_of_openMapped (hk : disk.kind? (disk.site path) = some (.file id))
    (hlt : id < disk.contents.length) (h : openMapped disk path size = (.ok id', disk')) :
    disk'.file id = (disk.file id).setLength size := by
  obtain ⟨disk₁, ho, -, rfl⟩ := openMapped_eq_ok_iff.1 h
  obtain ⟨-, -, place, ht, hplace⟩ := Disk.openOrCreate_eq_ok_iff.1 ho
  rw [Disk.site_of_target ht] at hk
  rcases hplace with ⟨hk', rfl⟩ | ⟨hk', -⟩
  · obtain rfl : id = id' := by simpa [hk] using hk'
    exact Disk.file_setFile_of_lt hlt _
  · rw [hk] at hk'
    cases hk'

/-- Mapping a file that is there cuts or extends it. -/
theorem file_of_mapFile (hd : disk.WellFormed)
    (hk : disk.kind? (disk.site path) = some (.file id))
    (h : mapFile disk path size = (.ok id', disk')) :
    disk'.file id = (disk.file id).setLength size := by
  have hlt := hd.file_lt hk
  rw [mapFile] at h
  split at h
  · exact file_of_openMapped hk hlt h
  · rename_i parent _
    have hgrows := (disk.makeDirectories_spec parent).1
    split at h
    · cases h
    · rename_i disk₁ hm
      rw [hm] at hgrows
      rw [file_of_openMapped (hgrows.le.site path ▸ hgrows.le.kind? hk) (hgrows.contents ▸ hlt) h,
        hgrows.file_eq]

theorem mapFile_of_openChunk (hm : e.mapping = none) {index : Nat} {range : ChunkRange}
    (h : e.openChunk disk index = (.ok range, e', disk')) :
    ∃ id, mapFile disk e.backingPath e.size = (.ok id, disk') := by
  rw [openChunk] at h
  split at h
  · cases h
  · rw [openFile_of_unmapped hm] at h
    obtain ⟨⟨result, disk₁⟩, hmap⟩ : ∃ r, mapFile disk e.backingPath e.size = r := ⟨_, rfl⟩
    rw [hmap] at h
    cases result with
    | error cause => cases h
    | ok id =>
      cases h
      exact ⟨id, hmap⟩

/-- Two entries have one file between them: they map the same one, and opening the first cuts or
extends the file of the second to the size that the first declares. -/
structure SharesFile (disk : Disk) (e₁ e₂ : Entry) : Prop where
  mapping : ∀ {id₁ id₂}, e₁.mapping = some id₁ → e₂.mapping = some id₂ → id₁ = id₂
  openChunk : ∀ {index range e disk' b}, e₁.mapping = none →
    e₁.openChunk disk index = (.ok range, e, disk') → e₂.bytes? disk = some b →
      e₂.bytes? disk' = some (b.resize e₁.size)

/-- Entries with the same place have one file between them. -/
theorem sharesFile_of_site {dir : String} (hd : disk.Tidy) (h₁ : e₁.Sited dir disk)
    (h₂ : e₂.Sited dir disk) (hsite : disk.site e₁.backingPath = disk.site e₂.backingPath) :
    SharesFile disk e₁ e₂ where
  mapping hm₁ hm₂ := by
    have hk := (h₁.kind?_site hm₁).symm.trans (hsite ▸ h₂.kind?_site hm₂)
    simpa using hk
  openChunk := by
    intro index range e disk' b hm ho hb
    obtain ⟨path, hp, hread⟩ := Option.bind_eq_some_iff.1 hb
    obtain ⟨id, hopen, rfl⟩ := Disk.read_eq_ok_iff.1 (toOption_eq_some_iff.1 hread)
    have hbound := hd.toWellFormed.bound_of_openToRead hopen
    have hpath : e₂.backingPath = path := by rw [backingPath, hp, Option.getD_some]
    have hk := hbound.kind?_site
    rw [← hpath, ← hsite] at hk
    obtain ⟨id', hmap⟩ := mapFile_of_openChunk hm ho
    have hfile := file_of_mapFile hd.toWellFormed hk hmap
    have hle := (mapFile_spec hd.toWellFormed hmap).1
    rw [bytes?, hp, Option.bind_some, (hbound.mono hle).read, Disk.content, hfile,
      FileContent.bytes_setLength]
    rfl

end Entry

namespace Store

open Entry (Sited Use SameView SharesFile)

variable {dir path name : String} {s t : Store} {disk disk' : Disk} {d : Descriptor} {e : Entry}
  {id : FileId} {hash : ContentHash}

/-- The states of a store that makes files in `dir`, with the disk: peers' descriptors and files of
this host are added, files are shared, and entries are used. A file of this host is there when its
entry is added. -/
inductive Reached (dir : String) : Store → Disk → Prop
  | start {disk : Disk} (hd : disk.Tidy) : Reached dir (.empty dir) disk
  | add {s t : Store} {disk : Disk} {d : Descriptor} (h : Reached dir s disk)
    (ha : s.add d = .ok t) : Reached dir t disk
  | addFile {s t : Store} {disk : Disk} {d : Descriptor} {path : String} {id : FileId}
    (h : Reached dir s disk) (ho : disk.openToRead path = .ok (.file id))
    (ha : s.addFile d path = .ok t) : Reached dir t disk
  | share {s t : Store} {disk : Disk} {d : Descriptor} {path name : String}
    (h : Reached dir s disk) (hs : s.share disk path name = .ok (d, t)) : Reached dir t disk
  | use {s : Store} {disk : Disk} {hash : ContentHash} {e : Entry} (h : Reached dir s disk)
    (hl : s.lookup hash = some e) (u : Use) :
    Reached dir (s.modify hash fun _ => (e.use disk u).1) (e.use disk u).2

/-- What holds of every state: each entry has its file or waits for it, and no file has two
names. -/
structure Sound (dir : String) (s : Store) (disk : Disk) : Prop extends Lodged dir s disk where
  tidy : disk.Tidy

namespace Sound

theorem start (hd : disk.Tidy) : Sound dir (.empty dir) disk :=
  ⟨.start hd.toWellFormed dir, hd⟩

theorem add (h : Sound dir s disk) (ha : s.add d = .ok t) : Sound dir t disk :=
  ⟨h.toLodged.add ha, h.tidy⟩

theorem addFile (h : Sound dir s disk) (ho : disk.openToRead path = .ok (.file id))
    (ha : s.addFile d path = .ok t) : Sound dir t disk :=
  ⟨h.toLodged.addFile ho ha, h.tidy⟩

theorem share (h : Sound dir s disk) (hs : s.share disk path name = .ok (d, t)) :
    Sound dir t disk :=
  ⟨h.toLodged.share hs, h.tidy⟩

theorem use (h : Sound dir s disk) (hl : s.lookup hash = some e) (u : Use) :
    Sound dir (s.modify hash fun _ => (e.use disk u).1) (e.use disk u).2 :=
  ⟨h.toLodged.use hl u, Entry.tidy_of_touches h.tidy ((h.sited hl).uses h.tidy u).touches⟩

end Sound

theorem Reached.sound (h : Reached dir s disk) : Sound dir s disk := by
  induction h with
  | start hd => exact .start hd
  | add _ ha ih => exact ih.add ha
  | addFile _ ho ha ih => exact ih.addFile ho ha
  | share _ hs ih => exact ih.share hs
  | use _ hl u ih => exact ih.use hl u

/-- A new descriptor can be added. -/
theorem Reached.exists_add (h : Reached dir s disk) (hn : d.nameLength ≤ nameWidth)
    (hz : d.hash ≠ .zero) (hl : s.lookup d.hash = none) : ∃ t, Reached dir t disk ∧
      t.lookup d.hash = some (.ofPeer d (Path.join dir (fileName d))) ∧
      ∀ k ≠ d.hash, t.lookup k = s.lookup k := by
  have hs := h.sound
  obtain ⟨t, ha⟩ : ∃ t, s.add d = .ok t := hs.valid.exists_insert hn hz hl
  have hlookup := hs.valid.lookup_add ha
  rw [hs.downloadDir] at hlookup
  exact ⟨t, h.add ha, hlookup, fun k hne => hs.valid.lookup_insert_of_ne ha hne⟩

/-! ## What separates entries -/

/-- What is done with one entry leaves what another one shows as it was, its checks, its chunks and
its file, if their places are different. If they are the same, the entries have one file between
them. The places of two peers' entries are the same just when the files are made under the same
name, whatever the contents are. -/
theorem Reached.site_separates (h : Reached dir s disk) {k₁ k₂ : ContentHash} {e₁ e₂ : Entry}
    (h₁ : s.lookup k₁ = some e₁) (h₂ : s.lookup k₂ = some e₂) :
    (disk.site e₁.backingPath ≠ disk.site e₂.backingPath → ∀ u,
      SameView dir disk (e₁.use disk u).2 e₂) ∧
    (disk.site e₁.backingPath = disk.site e₂.backingPath → SharesFile disk e₁ e₂) ∧
    (e₁.origin = .network → e₂.origin = .network →
      (disk.site e₁.backingPath = disk.site e₂.backingPath ↔
        fileName e₁.descriptor = fileName e₂.descriptor)) := by
  have hs := h.sound
  refine ⟨fun hne u => ?_, fun heq => ?_, fun ho₁ ho₂ => ?_⟩
  · exact ((hs.sited h₁).uses hs.tidy u).sameView hs.tidy (hs.sited h₂) hne
  · exact Entry.sharesFile_of_site hs.tidy (hs.sited h₁) (hs.sited h₂) heq
  · rw [hs.named h₁ ho₁, hs.named h₂ ho₂, Disk.site_join (Path.isName_fileName _),
      Disk.site_join (Path.isName_fileName _), List.cons.injEq, and_iff_left rfl]

/-- A descriptor under a name, with a hash and a size; its chunks have no hashes. -/
def declared (name : String) (hash : UInt8) (size : UInt64) : Descriptor :=
  ⟨name, .ofBytes [hash], .replicate chunkCount .zero, size⟩

theorem fileName_declared (hash : UInt8) (size : UInt64) :
    fileName (declared "n" hash size) = "n" ∧ fileName (declared "m" hash size) = "m" := by
  have hn : Path.fileName? "n" = some "n" := by decide +kernel
  have hm : Path.fileName? "m" = some "m" := by decide +kernel
  exact ⟨by rw [fileName, declared, hn]; rfl, by rw [fileName, declared, hm]; rfl⟩

theorem openChunk_of_mapFile (hm : e.mapping = none)
    (h : Entry.mapFile disk e.backingPath e.size = (.ok id, disk')) :
    e.openChunk disk 0 = (.ok (e.descriptor.range 0), e.opened id, disk') := by
  have hr : e.descriptor.chunkRange? 0 = some (e.descriptor.range 0) := rfl
  simp only [Entry.openChunk, hr, Entry.openFile_of_mapFile hm h, Except.map]

/-- Three contents of 512, 512 and 600 bytes under the names `n`, `m` and `n`; the first one has its
file. Opening the third one leaves the second as it was and extends the file of the first. -/
theorem Reached.site_separates_names : ∃ s disk e₁ e₂ e₃ range e disk',
    Reached "" s disk ∧ s.lookup (.ofBytes [1]) = some e₁ ∧ s.lookup (.ofBytes [2]) = some e₂ ∧
      s.lookup (.ofBytes [3]) = some e₃ ∧ e₁.bytes? disk = some (.zeros 512) ∧
      e₃.openChunk disk 0 = (.ok range, e, disk') ∧ SameView "" disk disk' e₂ ∧
      e₁.bytes? disk' = some (.zeros 600) := by
  have hr₀ : Reached "" (.empty "") .empty := .start Disk.tidy_empty
  obtain ⟨s₁, hr₁, hl₁, hold₁⟩ := hr₀.exists_add (d := declared "n" 1 512) (by decide) (by decide)
    (lookup_empty _ _)
  obtain ⟨s₂, hr₂, hl₂, hold₂⟩ := hr₁.exists_add (d := declared "m" 2 512) (by decide) (by decide)
    ((hold₁ _ (by decide)).trans (lookup_empty _ _))
  obtain ⟨s₃, hr₃, hl₃, hold₃⟩ := hr₂.exists_add (d := declared "n" 3 600) (by decide) (by decide)
    ((hold₂ _ (by decide)).trans ((hold₁ _ (by decide)).trans (lookup_empty _ _)))
  have hn : Path.join "" "n" = "n" := by decide
  have hm : Path.join "" "m" = "m" := by decide
  rw [(fileName_declared _ _).1, hn] at hl₁ hl₃
  rw [(fileName_declared _ _).2, hm] at hl₂
  have hfirst := (hold₃ _ (by decide)).trans ((hold₂ _ (by decide)).trans hl₁)
  have hsecond := (hold₃ _ (by decide)).trans hl₂
  -- The first one is opened before the third.
  obtain ⟨disk, hmap, hzeros⟩ : ∃ disk', Entry.mapFile .empty "n" 512 = (.ok 0, disk') ∧
    disk'.content 0 = .zeros 512 := ⟨_, rfl, by decide +kernel⟩
  obtain ⟨hle, hbound, -⟩ := Entry.mapFile_spec Disk.wellFormed_empty hmap
  have hadmits : disk.Admits 600 := (Disk.admits_empty (by decide)).mono hle
  have hopen : (Entry.ofPeer (declared "n" 1 512) "n").openChunk .empty 0 = (.ok _, _, disk) :=
    openChunk_of_mapFile rfl hmap
  have hthird : (Entry.ofPeer (declared "n" 3 600) "n").openChunk disk 0 = (.ok _, _, _) :=
    openChunk_of_mapFile rfl (Entry.mapFile_of_bound hbound hadmits)
  have hbytes : ((Entry.ofPeer (declared "n" 1 512) "n").opened 0).bytes? disk =
      some (.zeros 512) := by
    have hread : disk.read "n" = .ok (.zeros 512) := hbound.read.trans (congrArg _ hzeros)
    exact congrArg Except.toOption hread
  have hr := hr₃.use hfirst (.openChunk 0)
  rw [Entry.use, hopen] at hr
  have hmodified (k : ContentHash) := hr₃.sound.valid.lookup_modify (declared "n" 1 512).hash k
    fun _ => (Entry.ofPeer (declared "n" 1 512) "n").opened 0
  have hl₁ := (hmodified _).trans ((if_pos rfl).trans (congrArg (Option.map _) hfirst))
  have hl₂ := (hmodified _).trans ((if_neg (by decide)).trans hsecond)
  have hl₃ := (hmodified _).trans ((if_neg (by decide)).trans hl₃)
  have hne : fileName (declared "n" 3 600) ≠ fileName (declared "m" 2 512) := by
    rw [(fileName_declared _ _).1, (fileName_declared _ _).2]
    decide
  have heq : fileName (declared "n" 3 600) = fileName (declared "n" 1 512) := by
    rw [(fileName_declared _ _).1, (fileName_declared _ _).1]
  obtain ⟨happart, -, hnames⟩ := hr.site_separates hl₃ hl₂
  obtain ⟨-, hshared, hsame⟩ := hr.site_separates hl₃ hl₁
  refine ⟨_, disk, _, _, _, _, _, _, hr, hl₁, hl₂, hl₃, hbytes, hthird, ?_, ?_⟩
  · have hview := happart ((hnames rfl rfl).not.2 hne) (.openChunk 0)
    rw [Entry.use, hthird] at hview
    exact hview
  · have hresize : Bytes.resize (.zeros 512) 600 = .zeros 600 := by decide +kernel
    rw [← hresize]
    exact (hshared ((hsame rfl rfl).2 heq)).openChunk rfl hthird hbytes

end Store

end FileMesh
