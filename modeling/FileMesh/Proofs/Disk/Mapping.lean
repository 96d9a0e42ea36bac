import FileMesh.Entry
import FileMesh.Proofs.Disk.Tree

/-!
# Files that can be mapped

Once a file could be mapped under a path it can be mapped there again, and it is the same file. What
other files hold does not change. A file that can have a size has it as soon as it was opened, even
if it cannot be mapped then.
-/

namespace FileMesh

namespace Disk

variable {d d' : Disk} {path : String} {id : FileId} {size : Nat}

/-- A file that can be mapped and read under a path: the directory above is there, and the path is
one of a file. -/
structure Bound (d : Disk) (path : String) (id : FileId) : Prop where
  parent : ∀ p, (Path.parent? path).filter (· ≠ "") = some p → d.isDirectory p = true
  target : ∃ place, d.target path = .ok place ∧ d.kind? place = some (.file id)
  isFile : Path.endsInSeparator path = false ∧ endsInName path = true
  lt : id < d.contents.length

theorem Bound.mono (h : d.Bound path id) (hle : d.Le d') : d'.Bound path id where
  parent p hp := hle.isDirectory (h.parent p hp)
  target := by
    obtain ⟨place, ht, hk⟩ := h.target
    exact ⟨place, hle.target ht, hle.kind? hk⟩
  isFile := h.isFile
  lt := Nat.lt_of_lt_of_le h.lt hle.length

theorem Bound.openToRead (h : d.Bound path id) : d.openToRead path = .ok (.file id) := by
  obtain ⟨place, ht, hk⟩ := h.target
  exact openToRead_of_target ht hk h.isFile.1

theorem Bound.openOrCreate (h : d.Bound path id) : d.openOrCreate path = .ok (id, d) := by
  obtain ⟨place, ht, hk⟩ := h.target
  exact openOrCreate_of_target ht hk h.isFile.1 h.isFile.2

theorem Bound.read (h : d.Bound path id) : d.read path = .ok (d.content id) :=
  read_eq_ok_iff.2 ⟨id, h.openToRead, rfl⟩

/-- A file that gets a length is cut or extended by zeros. -/
theorem content_setFile_setLength (h : id < d.contents.length) (n : Nat) :
    (d.setFile id ((d.file id).setLength n)).content id = (d.content id).resize n := by
  rw [content, file_setFile_of_lt h, FileContent.bytes_setLength]
  rfl

theorem content_setFile_of_ne {j : FileId} (h : id ≠ j) (f : FileContent) :
    (d.setFile id f).content j = d.content j := by
  rw [content, file_setFile_of_ne d h, content]

/-! ## What the system admits -/

/-- A file can have `n` bytes. -/
structure Sizes (d : Disk) (n : Nat) : Prop where
  le : n ≤ largestOffset
  length : d.system.lengthFailure n = none

/-- A file can have `n` bytes and be mapped. -/
structure Admits (d : Disk) (n : Nat) : Prop extends Sizes d n where
  mapping : d.system.mapFailure n = none

/-- What the system refuses stays the same. -/
theorem Le.sizes_iff (h : d.Le d') (n : Nat) : d'.Sizes n ↔ d.Sizes n := by
  constructor <;> rintro ⟨hle, hlength⟩
  · exact ⟨hle, h.system ▸ hlength⟩
  · exact ⟨hle, h.system ▸ hlength⟩

theorem Le.admits_iff (h : d.Le d') (n : Nat) : d'.Admits n ↔ d.Admits n := by
  constructor <;> rintro ⟨hsizes, hmap⟩
  · exact ⟨(h.sizes_iff n).1 hsizes, h.system ▸ hmap⟩
  · exact ⟨(h.sizes_iff n).2 hsizes, h.system ▸ hmap⟩

theorem Admits.mono (h : d.Admits size) (hle : d.Le d') : d'.Admits size :=
  (hle.admits_iff size).2 h

/-- Whatever a 32-bit number of pages can hold is admitted where nothing else is refused. -/
theorem admits_empty (h : size ≤ FileSystem.largestFile) : empty.Admits size where
  le := Nat.le_trans h (by decide)
  length := if_neg (Nat.not_lt.2 h)
  mapping := rfl

theorem setLength_eq_ok_iff : d.setLength id size = .ok d' ↔
    d.Sizes size ∧ d' = d.setFile id ((d.file id).setLength size) := by
  rw [setLength]
  by_cases ho : largestOffset < size
  · rw [if_pos ho]
    exact ⟨nofun, fun h => absurd h.1.le (Nat.not_le.2 ho)⟩
  · rw [if_neg ho]
    cases hl : d.system.lengthFailure size with
    | some cause => exact ⟨nofun, fun h => nomatch hl.symm.trans h.1.length⟩
    | none =>
      have hsizes : d.Sizes size := ⟨Nat.le_of_not_lt ho, hl⟩
      simp [hsizes, eq_comm]

theorem setLength_of_not_sizes (h : ¬ d.Sizes size) (id : FileId) :
    ∃ cause, d.setLength id size = .error cause := by
  cases hs : d.setLength id size with
  | error cause => exact ⟨cause, rfl⟩
  | ok d' => exact absurd (setLength_eq_ok_iff.1 hs).1 h

/-- A file that can be mapped at a size has the size then. -/
theorem mapSized_of_admits (h : d.Admits size) (id : FileId) :
    d.mapSized id size = (.ok (), d.setFile id ((d.file id).setLength size)) := by
  have hmap : (d.setFile id ((d.file id).setLength size)).system.mapFailure size = none := h.mapping
  rw [mapSized, setLength_eq_ok_iff.2 ⟨h.toSizes, rfl⟩]
  simp only [hmap]

theorem mapSized_of_not_sizes (h : ¬ d.Sizes size) (id : FileId) :
    ∃ cause, d.mapSized id size = (.error cause, d) := by
  obtain ⟨cause, hs⟩ := setLength_of_not_sizes h id
  exact ⟨cause, by rw [mapSized, hs]⟩

/-- A file that can have the size but not be mapped has the size all the same. -/
theorem mapSized_of_not_admits (h : d.Sizes size) (hnot : ¬ d.Admits size) (id : FileId) :
    ∃ cause, d.mapSized id size = (.error cause, d.setFile id ((d.file id).setLength size)) := by
  cases hm : d.system.mapFailure size with
  | none => exact absurd ⟨h, hm⟩ hnot
  | some cause =>
    have hmap : (d.setFile id ((d.file id).setLength size)).system.mapFailure size = some cause :=
      hm
    refine ⟨cause, ?_⟩
    rw [mapSized, setLength_eq_ok_iff.2 ⟨h, rfl⟩]
    simp only [hmap]

/-- Whatever comes of mapping a file, it has the size if a file can have it, and it is as it was
otherwise. -/
theorem snd_mapSized (d : Disk) (id : FileId) (size : Nat) :
    d.Sizes size ∧ (d.mapSized id size).2 = d.setFile id ((d.file id).setLength size) ∨
      ¬ d.Sizes size ∧ (d.mapSized id size).2 = d := by
  by_cases hs : d.Sizes size
  · refine .inl ⟨hs, ?_⟩
    by_cases ha : d.Admits size
    · rw [mapSized_of_admits ha]
    · obtain ⟨cause, h⟩ := mapSized_of_not_admits hs ha id
      rw [h]
  · obtain ⟨cause, h⟩ := mapSized_of_not_sizes hs id
    exact .inr ⟨hs, by rw [h]⟩

theorem le_mapSized (d : Disk) (id : FileId) (size : Nat) : d.Le (d.mapSized id size).2 := by
  rcases d.snd_mapSized id size with ⟨-, hsized⟩ | ⟨-, hsame⟩
  · rw [hsized]
    exact d.le_setFile id _
  · rw [hsame]
    exact .refl d

theorem WellFormed.mapSized (h : d.WellFormed) (id : FileId) (size : Nat) :
    (d.mapSized id size).2.WellFormed := by
  rcases d.snd_mapSized id size with ⟨-, hsized⟩ | ⟨-, hsame⟩
  · rw [hsized]
    exact h.setFile id _
  · rwa [hsame]

/-- Mapping a file that has the size changes no byte. -/
theorem content_mapSized (h : id < d.contents.length) (hlen : (d.content id).length = size) :
    (d.mapSized id size).2.content id = d.content id := by
  rcases d.snd_mapSized id size with ⟨-, hsized⟩ | ⟨-, hsame⟩
  · rw [hsized, content_setFile_setLength h, ← hlen, Bytes.resize_length]
  · rw [hsame]

/-- A file that can have the size is cut or extended. -/
theorem content_mapSized_of_sizes (h : id < d.contents.length) (hs : d.Sizes size) :
    (d.mapSized id size).2.content id = (d.content id).resize size := by
  rcases d.snd_mapSized id size with ⟨-, hsized⟩ | ⟨hnot, -⟩
  · rw [hsized, content_setFile_setLength h]
  · exact absurd hs hnot

theorem snd_mapSized_of_not_sizes (h : ¬ d.Sizes size) (id : FileId) :
    (d.mapSized id size).2 = d := by
  obtain ⟨cause, hfail⟩ := mapSized_of_not_sizes h id
  rw [hfail]

theorem content_mapSized_of_ne {j : FileId} (h : id ≠ j) (size : Nat) :
    (d.mapSized id size).2.content j = d.content j := by
  rcases d.snd_mapSized id size with ⟨-, hsized⟩ | ⟨-, hsame⟩
  · rw [hsized, content_setFile_of_ne h]
  · rw [hsame]

@[simp] theorem kind?_mapSized (d : Disk) (id : FileId) (size : Nat) (place : Place) :
    (d.mapSized id size).2.kind? place = d.kind? place := by
  rcases d.snd_mapSized id size with ⟨-, hsized⟩ | ⟨-, hsame⟩
  · rw [hsized, kind?_setFile]
  · rw [hsame]

theorem mapSized_fst_of_not_admits (h : ¬ d.Admits size) (id : FileId) :
    ∃ cause, (d.mapSized id size).1 = .error cause := by
  by_cases hs : d.Sizes size
  · obtain ⟨cause, hfail⟩ := mapSized_of_not_admits hs h id
    exact ⟨cause, by rw [hfail]⟩
  · obtain ⟨cause, hfail⟩ := mapSized_of_not_sizes hs id
    exact ⟨cause, by rw [hfail]⟩

theorem mapSized_eq_ok_iff : d.mapSized id size = (.ok (), d') ↔
    d.Admits size ∧ d' = d.setFile id ((d.file id).setLength size) := by
  by_cases ha : d.Admits size
  · simp [mapSized_of_admits ha, ha, eq_comm]
  · refine ⟨fun h => ?_, fun h => absurd h.1 ha⟩
    obtain ⟨cause, hfail⟩ := mapSized_fst_of_not_admits ha id
    rw [h] at hfail
    cases hfail

end Disk

namespace Entry

variable {disk disk' : Disk} {path : String} {id : FileId} {size : Nat}

/-- The second step of mapping succeeds for a file that can be opened and mapped at its size. -/
theorem openMapped_eq_ok_iff : openMapped disk path size = (.ok id, disk') ↔
    ∃ disk₁, disk.openOrCreate path = .ok (id, disk₁) ∧ disk₁.Admits size ∧
      disk' = disk₁.setFile id ((disk₁.file id).setLength size) := by
  rw [openMapped]
  cases ho : disk.openOrCreate path with
  | error cause => simp
  | ok opened =>
    obtain ⟨id₁, disk₁⟩ := opened
    obtain ⟨⟨mapped, disk₂⟩, hm⟩ : ∃ r, disk₁.mapSized id₁ size = r := ⟨_, rfl⟩
    simp only [hm]
    constructor
    · intro h
      cases mapped with
      | error cause => cases h
      | ok _ =>
        cases h
        exact ⟨disk₁, rfl, Disk.mapSized_eq_ok_iff.1 hm⟩
    · rintro ⟨disk₃, hopened, hmap⟩
      cases hopened
      obtain ⟨rfl, rfl⟩ := Prod.mk.inj (hm.symm.trans (Disk.mapSized_eq_ok_iff.2 hmap))
      rfl

/-- The file is there with its size, and nothing is taken away. -/
theorem openMapped_spec (hd : disk.WellFormed) (h : openMapped disk path size = (.ok id, disk')) :
    disk.Le disk' ∧ Path.endsInSeparator path = false ∧ Disk.endsInName path = true ∧
      (∃ place, disk'.target path = .ok place ∧ disk'.kind? place = some (.file id)) ∧
      (disk'.file id).length = size ∧ disk.Admits size := by
  obtain ⟨disk₁, ho, hadmits, rfl⟩ := openMapped_eq_ok_iff.1 h
  obtain ⟨hle, hd₁, hsep, hname, place, ht, hk⟩ := Disk.openOrCreate_spec hd ho
  have hset := disk₁.le_setFile id ((disk₁.file id).setLength size)
  refine ⟨hle.trans hset, hsep, hname, ⟨place, hset.target ht, hset.kind? hk⟩, ?_,
    (hle.admits_iff size).1 hadmits⟩
  rw [Disk.file_setFile_of_lt (hd₁.file_lt hk)]
  rfl

theorem wellFormed_openMapped (hd : disk.WellFormed) (path : String) (size : Nat) :
    (openMapped disk path size).2.WellFormed := by
  rw [openMapped]
  split
  · exact hd
  · rename_i id disk₁ ho
    obtain ⟨-, hd₁, -⟩ := Disk.openOrCreate_spec hd ho
    exact hd₁.mapSized id size

/-- Mapping keeps the tree in order, also when it fails halfway. -/
theorem wellFormed_mapFile (hd : disk.WellFormed) (path : String) (size : Nat) :
    (mapFile disk path size).2.WellFormed := by
  rw [mapFile]
  split
  · exact wellFormed_openMapped hd path size
  · rename_i parent _
    have hd₁ := (disk.makeDirectories_spec parent).1.wellFormed hd
    split
    · rename_i disk₁ hm
      rw [hm] at hd₁
      exact hd₁
    · rename_i disk₁ hm
      rw [hm] at hd₁
      exact wellFormed_openMapped hd₁ path size

/-- A file that could be mapped is bound to its path and has the size. -/
theorem mapFile_spec (hd : disk.WellFormed) (h : mapFile disk path size = (.ok id, disk')) :
    disk.Le disk' ∧ disk'.Bound path id ∧ (disk'.file id).length = size ∧
      disk'.Admits size := by
  have hd' := wellFormed_mapFile hd path size
  rw [h] at hd'
  obtain ⟨disk₁, hle₁, hd₁, hparent, h⟩ : ∃ disk₁ : Disk, disk.Le disk₁ ∧ disk₁.WellFormed ∧
      (∀ p, (Path.parent? path).filter (· ≠ "") = some p → disk₁.isDirectory p = true) ∧
      openMapped disk₁ path size = (.ok id, disk') := by
    rw [mapFile] at h
    split at h
    · rename_i hp
      exact ⟨disk, .refl disk, hd, fun p hp' => (by rw [hp] at hp'; cases hp'), h⟩
    · rename_i p hp
      obtain ⟨hg, hmade⟩ := disk.makeDirectories_spec p
      split at h
      · cases h
      · rename_i disk₁ hm
        rw [hm] at hg hmade
        refine ⟨disk₁, hg.le, hg.wellFormed hd, fun q hq => ?_, h⟩
        obtain rfl := Option.some.inj (hp.symm.trans hq)
        exact (hmade rfl).resolve_left (by simpa using (Option.filter_eq_some_iff.1 hp).2)
  obtain ⟨hle, hsep, hname, ⟨place, ht, hk⟩, hlen, hsize⟩ := openMapped_spec hd₁ h
  refine ⟨hle₁.trans hle, ?_, hlen, hsize.mono hle⟩
  exact {
    parent := fun p hp => hle.isDirectory (hparent p hp)
    target := ⟨place, ht, hk⟩
    isFile := ⟨hsep, hname⟩
    lt := hd'.file_lt hk }

/-- If the directory above is there, mapping is its second step. -/
theorem mapFile_eq_openMapped
    (h : ∀ p, (Path.parent? path).filter (· ≠ "") = some p → disk.isDirectory p = true)
    (size : Nat) : mapFile disk path size = openMapped disk path size := by
  rw [mapFile]
  split
  · rfl
  · rename_i p hp
    simp only [Disk.makeDirectories_of_isDirectory (h p hp)]

/-- Of a bound file nothing is left to do but to size and to map it. -/
theorem mapFile_eq_mapSized (h : disk.Bound path id) (size : Nat) : mapFile disk path size =
    ((disk.mapSized id size).1.map fun () => id, (disk.mapSized id size).2) := by
  rw [mapFile_eq_openMapped h.parent, openMapped, h.openOrCreate]

/-- A bound file can be mapped. -/
theorem mapFile_of_bound (h : disk.Bound path id) (hsize : disk.Admits size) :
    mapFile disk path size = (.ok id, disk.setFile id ((disk.file id).setLength size)) := by
  rw [mapFile_eq_mapSized h, Disk.mapSized_of_admits hsize]
  rfl

end Entry

end FileMesh
