import FileMesh.Proofs.Disk.Making
import FileMesh.Proofs.Serving

/-!
# What a failed opening leaves behind

Opening binds the entry to a path, makes the directories around it, makes the file, gives it its
size and maps it. A step that fails takes nothing back. So the entry keeps the path, directories and
a file that were made stay, and a file that got its size and could not be mapped keeps the size. An
opening leaves no trace just when there is no such chunk, or the entry had its path before and there
was nothing to do on the disk.
-/

namespace FileMesh

namespace Disk

variable {d d' : Disk} {p : Place} {path : String} {id : FileId}

/-- Nothing is done to the disk when a file of `size` bytes is opened at the path: no directory
around it can be made, and if the file can be opened it is there, with that size or unable to have
it. -/
structure NothingToDo (d : Disk) (path : String) (size : Nat) : Prop where
  directories : ∀ parent, (Path.parent? path).filter (· ≠ "") = some parent →
    checkPath parent = .ok () → ∀ name, Path.Around parent name →
      ∀ d', d.makeDirectory name ≠ .ok d'
  file : ∀ id d', d.openOrCreate path = .ok (id, d') →
    d' = d ∧ (d.Sizes size → (d.content id).length = size)

theorem adds_create (h : d.kind? p = none) : d.Adds (d.create p) where
  le := le_create h
  eq_or := by
    refine .inr ⟨p, h, ?_⟩
    rw [kind?_create d (ne_nil_of_kind?_eq_none h), if_pos rfl]
    simp

theorem adds_openOrCreate (h : d.openOrCreate path = .ok (id, d')) : d.Adds d' := by
  obtain ⟨-, -, place, -, ⟨-, rfl⟩ | ⟨hk, -, rfl⟩⟩ := openOrCreate_eq_ok_iff.1 h
  · exact .refl _
  · exact adds_create hk

end Disk

namespace Entry

variable {disk disk' d₁ : Disk} {e e' : Entry} {path : String} {size index : Nat} {cause : IoError}

/-! ## The steps of mapping a file -/

/-- The first step of mapping a file: the directories around it are made. -/
def surround (disk : Disk) (path : String) : Except IoError Unit × Disk :=
  match (Path.parent? path).filter (· ≠ "") with
  | some parent => disk.makeDirectories parent
  | none => (.ok (), disk)

theorem mapFile_eq_surround (disk : Disk) (path : String) (size : Nat) : mapFile disk path size =
    match surround disk path with
      | (.error cause, disk) => (.error cause, disk)
      | (.ok (), disk) => openMapped disk path size := by
  rw [mapFile, surround]
  cases (Path.parent? path).filter (· ≠ "") with
  | none => rfl
  | some parent => rfl

theorem grows_surround (disk : Disk) (path : String) : disk.Grows (surround disk path).2 := by
  rw [surround]
  split
  · exact (disk.makeDirectories_spec _).1
  · exact .refl disk

theorem adds_surround (disk : Disk) (path : String) : disk.Adds (surround disk path).2 := by
  rw [surround]
  split
  · exact disk.adds_makeDirectories _
  · exact .refl disk

/-- Where a path leads, the directories around are there. -/
theorem surround_of_target {place : Place} (h : disk.target path = .ok place) :
    surround disk path = (.ok (), disk) := by
  rw [surround]
  split
  · rename_i hp
    exact Disk.makeDirectories_of_isDirectory (Disk.isDirectory_of_parent? h hp)
  · rfl

theorem surround_snd_eq_iff (disk : Disk) (path : String) : (surround disk path).2 = disk ↔
    ∀ parent, (Path.parent? path).filter (· ≠ "") = some parent → Disk.checkPath parent = .ok () →
      ∀ name, Path.Around parent name → ∀ d', disk.makeDirectory name ≠ .ok d' := by
  rw [surround]
  cases (Path.parent? path).filter (· ≠ "") with
  | none => exact iff_of_true rfl fun parent hp => by cases hp
  | some parent =>
    simp only [Option.some.injEq, forall_eq']
    exact Disk.makeDirectories_snd_eq_iff

/-- A file that was opened and could not be mapped stays, with its size if it can have it. -/
theorem openMapped_of_error (h : openMapped disk path size = (.error cause, disk')) :
    (∀ id d', disk.openOrCreate path ≠ .ok (id, d')) ∧ disk' = disk ∨
      ∃ id d₁, disk.openOrCreate path = .ok (id, d₁) ∧ ¬ d₁.Admits size ∧
        disk' = (d₁.mapSized id size).2 := by
  rw [openMapped] at h
  cases ho : disk.openOrCreate path with
  | error cause' =>
    rw [ho] at h
    cases h
    refine .inl ⟨fun id d' ho' => ?_, rfl⟩
    cases ho'
  | ok opened =>
    obtain ⟨id, d₁⟩ := opened
    simp only [ho] at h
    refine .inr ⟨id, d₁, rfl, fun hadmits => ?_, (congrArg Prod.snd h).symm⟩
    rw [Disk.mapSized_of_admits hadmits] at h
    cases h

/-- A file that cannot be mapped was not opened, or was opened after the directories were made. -/
theorem mapFile_of_error (h : mapFile disk path size = (.error cause, disk')) :
    disk' = (surround disk path).2 ∧
        (disk' = disk → ∀ id d', disk.openOrCreate path ≠ .ok (id, d')) ∨
      ∃ id d₁, (surround disk path).2.openOrCreate path = .ok (id, d₁) ∧ ¬ disk.Admits size ∧
        disk' = (d₁.mapSized id size).2 := by
  have hgrows := grows_surround disk path
  obtain ⟨⟨made, d₀⟩, hs⟩ : ∃ r, surround disk path = r := ⟨_, rfl⟩
  rw [mapFile_eq_surround, hs] at h
  rw [hs] at hgrows ⊢
  cases made with
  | error cause' =>
    cases h
    refine .inl ⟨rfl, fun _ id d' ho => ?_⟩
    obtain ⟨-, -, place, ht, -⟩ := Disk.openOrCreate_eq_ok_iff.1 ho
    rw [surround_of_target ht] at hs
    cases hs
  | ok _ =>
    rcases openMapped_of_error h with ⟨hno, rfl⟩ | ⟨id, d₁, ho, hnot, rfl⟩
    · refine .inl ⟨rfl, ?_⟩
      rintro rfl
      exact hno
    · have hle := hgrows.le.trans (Disk.adds_openOrCreate ho).le
      exact .inr ⟨id, d₁, ho, mt (hle.admits_iff size).2 hnot, rfl⟩

theorem le_mapFile_of_error (h : mapFile disk path size = (.error cause, disk')) :
    disk.Le disk' := by
  have hle := (adds_surround disk path).le
  rcases mapFile_of_error h with ⟨rfl, -⟩ | ⟨id, d₁, ho, -, rfl⟩
  · exact hle
  · exact (hle.trans (Disk.adds_openOrCreate ho).le).trans (d₁.le_mapSized id size)

/-- A file that cannot be mapped leaves all files as they were just when there was nothing to do. -/
theorem sameFiles_mapFile_iff (hd : disk.WellFormed)
    (h : mapFile disk path size = (.error cause, disk')) :
    disk.SameFiles disk' ↔ disk.NothingToDo path size := by
  have hsurround := adds_surround disk path
  have hdirs := surround_snd_eq_iff disk path
  rcases mapFile_of_error h with ⟨rfl, hno⟩ | ⟨id, d₁, ho, -, rfl⟩
  · constructor
    · intro hsame
      have heq := hsurround.eq_of_le (.refl _) hsame.kind?
      exact ⟨hdirs.1 heq, fun id d' ho => absurd ho (hno heq id d')⟩
    · intro hnothing
      rw [hdirs.2 hnothing.directories]
      exact .refl disk
  · have hd₀ := (grows_surround disk path).wellFormed hd
    obtain ⟨-, hd₁, -, -, place, -, hk⟩ := Disk.openOrCreate_spec hd₀ ho
    have hsized := Disk.sameFiles_mapSized_iff (hd₁.file_lt hk) size
    constructor
    · intro hsame
      have hopened := Disk.adds_openOrCreate ho
      have hle := d₁.le_mapSized id size
      have heq₀ := hsurround.eq_of_le (hopened.le.trans hle) hsame.kind?
      obtain rfl := (hsurround.trans hopened).eq_of_le hle hsame.kind?
      rw [heq₀] at ho
      refine ⟨hdirs.1 heq₀, fun id' d' ho' => ?_⟩
      cases ho.symm.trans ho'
      exact ⟨rfl, hsized.1 hsame⟩
    · intro hnothing
      rw [hdirs.2 hnothing.directories] at ho
      obtain ⟨rfl, hlen⟩ := hnothing.file id d₁ ho
      exact hsized.2 hlen

/-- What a file that cannot be mapped leaves behind: other bytes at most in the file at the path,
which has the size then, and at most that file is new. -/
theorem files_of_mapFile (hd : disk.WellFormed)
    (h : mapFile disk path size = (.error cause, disk')) :
    (∀ id, disk'.content id = disk.content id ∨
      disk.Sizes size ∧ ¬ disk.Admits size ∧ disk'.openToRead path = .ok (.file id) ∧
        disk'.content id = (disk.content id).resize size) ∧
    ∀ place id, disk'.kind? place = some (.file id) → disk.kind? place = some (.file id) ∨
      ¬ disk.Admits size ∧ disk'.target path = .ok place ∧
        (disk.Sizes size → disk'.content id = Bytes.zeros size) ∧
        (¬ disk.Sizes size → disk'.content id = []) := by
  have hgrows := grows_surround disk path
  rcases mapFile_of_error h with ⟨rfl, -⟩ | ⟨id, d₁, ho, hnot, rfl⟩
  · exact ⟨fun id => .inl (hgrows.content id), fun place id hk => .inl (hgrows.file hk)⟩
  obtain ⟨hle, hd₁, hsep, -, place, ht, hk⟩ := Disk.openOrCreate_spec (hgrows.wellFormed hd) ho
  have hlt := hd₁.file_lt hk
  have hsizes := (hgrows.le.trans hle).sizes_iff size
  have hmapped := d₁.le_mapSized id size
  have hsame (j : FileId) : d₁.content j = disk.content j :=
    (Disk.content_openOrCreate ho j).trans (hgrows.content j)
  have hread : (d₁.mapSized id size).2.openToRead path = .ok (.file id) :=
    Disk.openToRead_of_target (hmapped.target ht) (hmapped.kind? hk) hsep
  refine ⟨fun j => ?_, fun q j hq => ?_⟩
  · by_cases hj : id = j
    · subst hj
      by_cases hs : d₁.Sizes size
      · exact .inr ⟨hsizes.1 hs, hnot, hread, by rw [Disk.content_mapSized_of_sizes hlt hs, hsame]⟩
      · exact .inl (by rw [Disk.snd_mapSized_of_not_sizes hs, hsame])
    · exact .inl ((Disk.content_mapSized_of_ne hj size).trans (hsame j))
  · rw [Disk.kind?_mapSized] at hq
    rcases Disk.file_of_openOrCreate ho hq with hq | ⟨hq, rfl, hempty⟩
    · exact .inl (hgrows.file hq)
    · refine .inr ⟨hnot, hmapped.target hq, fun hs => ?_, fun hs => ?_⟩
      · rw [Disk.content_mapSized_of_sizes hlt (hsizes.2 hs), hempty, Bytes.resize_nil]
      · rw [Disk.snd_mapSized_of_not_sizes (mt hsizes.1 hs), hempty]

/-! ## Failing to open -/

/-- Opening a chunk fails: for itself, to read it, or to store what was delivered for it. -/
inductive FailsToOpen (disk : Disk) (e : Entry) (index : Nat) : Entry → Disk → Prop where
  | opening {cause : StoreError} {e' : Entry} {disk' : Disk}
      (h : e.openChunk disk index = (.error cause, e', disk')) : FailsToOpen disk e index e' disk'
  | reading {cause : StoreError} {e' : Entry} {disk' : Disk}
      (h : e.readChunk disk index = (.error cause, e', disk')) : FailsToOpen disk e index e' disk'
  | storing {chunk : ChunkData} {e' : Entry} {disk' : Disk} (hi : chunk.chunkIndex.toNat = index)
      (h : Relay.accept disk e chunk = (.failed, e', disk')) : FailsToOpen disk e index e' disk'

theorem FailsToOpen.openChunk (h : FailsToOpen disk e index e' disk') :
    ∃ cause, e.openChunk disk index = (.error cause, e', disk') := by
  obtain ⟨⟨result, e₁, d₁⟩, ho⟩ : ∃ r, e.openChunk disk index = r := ⟨_, rfl⟩
  cases h with
  | opening h => exact ⟨_, h⟩
  | reading h =>
    simp only [readChunk, ho] at h
    cases result with
    | ok range => cases h
    | error cause =>
      cases h
      exact ⟨_, ho⟩
  | storing hi h =>
    subst hi
    simp only [Relay.accept, ho] at h
    split at h
    · cases h
    · cases result with
      | ok range =>
        dsimp only at h
        split at h <;> cases h
      | error cause =>
        cases h
        exact ⟨_, ho⟩

/-- There is no such chunk and nothing has happened, or the file could not be mapped. -/
theorem FailsToOpen.eq_or (h : FailsToOpen disk e index e' disk') :
    chunkCount ≤ index ∧ e' = e ∧ disk' = disk ∨
      index < chunkCount ∧ e.mapping = none ∧ e' = { e with path := some e.backingPath } ∧
        ∃ cause, mapFile disk e.backingPath e.size = (.error cause, disk') := by
  obtain ⟨cause, ho⟩ := h.openChunk
  rcases Nat.lt_or_ge index chunkCount with hlt | hge
  · right
    simp only [Entry.openChunk, Descriptor.chunkRange?_of_eq (i := ⟨index, hlt⟩) rfl] at ho
    rcases Option.eq_none_or_eq_some e.mapping with hm | ⟨id, hm⟩
    · rw [openFile_of_unmapped hm] at ho
      obtain ⟨⟨result, d₁⟩, hmap⟩ : ∃ r, mapFile disk e.backingPath e.size = r := ⟨_, rfl⟩
      rw [hmap] at ho
      cases result with
      | ok id => cases ho
      | error cause =>
        dsimp only [Except.map] at ho
        cases ho
        exact ⟨hlt, hm, rfl, cause, hmap⟩
    · simp only [openFile, hm] at ho
      cases ho
  · left
    have hnone : e.descriptor.chunkRange? index = none := by
      rw [Descriptor.chunkRange?, ChunkRange.ofIndex?, dif_neg (Nat.not_lt.2 hge)]
    simp only [Entry.openChunk, hnone] at ho
    cases ho
    exact ⟨hge, rfl, rfl⟩

/-- The path and the mapping of the entry, the tree and the bytes of all files are as before, and so
is what all checks answer. -/
structure NoTrace (disk : Disk) (e : Entry) (disk' : Disk) (e' : Entry) : Prop where
  path : e'.path = e.path
  mapping : e'.mapping = e.mapping
  files : disk.SameFiles disk'
  verify : e'.verify disk' = e.verify disk
  verifyChunk : ∀ i, e'.verifyChunk disk' i = e.verifyChunk disk i

theorem NoTrace.refl (disk : Disk) (e : Entry) : NoTrace disk e disk e :=
  ⟨rfl, rfl, .refl disk, rfl, fun _ => rfl⟩

/-- An entry without a mapping cannot be told from before where nothing has changed on the disk. -/
theorem NoTrace.of_sameFiles (hm : e.mapping = none) (h : disk.SameFiles disk')
    (hhere : disk'.here = disk.here) : NoTrace disk e disk' e where
  path := rfl
  mapping := rfl
  files := h
  verify := verify_of_sameRead hm fun path _ => h.sameRead hhere path
  verifyChunk := verifyChunk_of_sameRead hm fun path _ => h.sameRead hhere path

/-- A failed opening leaves no trace just when there is no such chunk, or the entry had its path
before and there was nothing to do on the disk. In any case nothing is mapped, and whatever stood on
the disk stands there. What can be left besides directories is the path of the entry and a single
file at this path: it keeps its bytes, or is made empty, if it cannot have the declared size, and it
has the declared size if it can have it but cannot be mapped. -/
theorem FailsToOpen.noTrace_iff (hd : disk.WellFormed) (h : FailsToOpen disk e index e' disk') :
    (NoTrace disk e disk' e' ↔
      chunkCount ≤ index ∨ e.path ≠ none ∧ disk.NothingToDo e.backingPath e.size) ∧
    e'.mapping = e.mapping ∧
    (index < chunkCount → e'.path = some e.backingPath) ∧
    (∀ place kind, disk.kind? place = some kind → disk'.kind? place = some kind) ∧
    (∀ id, disk'.content id = disk.content id ∨
      disk.Sizes e.size ∧ ¬ disk.Admits e.size ∧ disk'.openToRead e.backingPath = .ok (.file id) ∧
        disk'.content id = (disk.content id).resize e.size) ∧
    ∀ place id, disk'.kind? place = some (.file id) → disk.kind? place = some (.file id) ∨
      ¬ disk.Admits e.size ∧ disk'.target e.backingPath = .ok place ∧
        (disk.Sizes e.size → disk'.content id = Bytes.zeros e.size) ∧
        (¬ disk.Sizes e.size → disk'.content id = []) := by
  rcases h.eq_or with ⟨hge, rfl, rfl⟩ | ⟨hlt, hm, rfl, cause, hmap⟩
  · exact ⟨iff_of_true (.refl disk' e') (.inl hge), rfl, fun hlt => absurd hlt (Nat.not_lt.2 hge),
      fun _ _ => id, fun _ => .inl rfl, fun _ _ => .inl⟩
  · have hle := le_mapFile_of_error hmap
    refine ⟨?_, rfl, fun _ => rfl, fun _ _ => hle.kind?, files_of_mapFile hd hmap⟩
    rw [← sameFiles_mapFile_iff hd hmap]
    constructor
    · intro ht
      refine .inr ⟨?_, ht.files⟩
      rw [← ht.path]
      exact Option.some_ne_none _
    · rintro (hge | ⟨hpath, hsame⟩)
      · exact absurd hlt (Nat.not_lt.2 hge)
      · obtain ⟨path, hpath⟩ := Option.ne_none_iff_exists'.1 hpath
        have hkeeps : { e with path := some e.backingPath } = e := by
          rw [backingPath_of_path hpath, ← hpath]
        rw [hkeeps]
        exact .of_sameFiles hm hsame hle.here

/-- The entry of a peer's file that is too large for any disk. -/
def tooLarge : Entry := .ofPeer ⟨"n", .zero, Vector.replicate _ .zero, 0x8000000000000000⟩ "dl/n"

/-- The entry keeps its path, and a directory and an empty file stay that were not there. Failing
once more leaves no further trace. -/
theorem FailsToOpen.noTrace_iff_tooLarge : ∃ e disk, FailsToOpen .empty tooLarge 0 e disk ∧
    tooLarge.path = none ∧ e.path = some "dl/n" ∧ Disk.empty.exists? "dl" = false ∧
    disk.openToRead "dl/n" = .ok (.file 0) ∧ ¬ NoTrace .empty tooLarge disk e ∧
    FailsToOpen disk e 0 e disk ∧ disk.NothingToDo "dl/n" e.size := by
  obtain ⟨e, disk, ho, hpath, hfile, ho'⟩ : ∃ e disk,
      tooLarge.openChunk .empty 0 = (.error (.io .sizeTooLarge), e, disk) ∧
      e.path = some "dl/n" ∧ disk.openToRead "dl/n" = .ok (.file 0) ∧
      e.openChunk disk 0 = (.error (.io .sizeTooLarge), e, disk) :=
    ⟨{ tooLarge with path := some "dl/n" }, _, rfl, rfl, rfl, rfl⟩
  have hwf : disk.WellFormed := by
    have hmapped := wellFormed_mapFile Disk.wellFormed_empty tooLarge.backingPath tooLarge.size
    have hdisk : (tooLarge.openChunk .empty 0).2.2 = disk := by rw [ho]
    rwa [← hdisk]
  refine ⟨e, disk, .opening ho, rfl, hpath, rfl, hfile, ?_, .opening ho', ?_⟩
  · rw [(FailsToOpen.noTrace_iff Disk.wellFormed_empty (.opening ho)).1]
    rintro (hge | ⟨hne, -⟩)
    · exact absurd hge (by decide)
    · exact hne rfl
  · rcases (FailsToOpen.noTrace_iff hwf (.opening ho')).1.1 (.refl disk e) with hge | ⟨-, hno⟩
    · exact absurd hge (by decide)
    · rwa [backingPath_of_path hpath] at hno

/-- Where nothing can be mapped a file of three bytes is extended all the same. -/
example : ∃ disk disk' e', Disk.write { Disk.empty with system := { FileSystem.pageCounting with
      mapFailure := fun _ => some .outOfMemory } } "n" [1, 2, 3] = .ok disk ∧
    (ofFile ⟨"n", .zero, Vector.replicate _ .zero, 5⟩ "n").readChunk disk 0 =
      (.error (.io .outOfMemory), e', disk') ∧
    e'.mapping = none ∧ disk'.content 0 = [1, 2, 3, 0, 0] :=
  ⟨_, _, _, rfl, rfl, rfl, rfl⟩

end Entry

end FileMesh
