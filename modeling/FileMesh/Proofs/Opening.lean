import FileMesh.Proofs.Backing
import FileMesh.Proofs.Disk.Parent

/-!
# Opening what can be read

When an entry is opened at a path at which something can be read, nothing is made. A file gets the
declared size and is mapped; that is the only change. A directory is refused, and so is a size that
no file can have. A file that has got its size may still not be mapped; it keeps the size then.
-/

namespace FileMesh

namespace Disk

variable {d : Disk} {path : String}

theorem isDirectory_of_openToRead (h : d.openToRead path = .ok .directory) :
    d.isDirectory path = true := by
  rw [openToRead] at h
  rw [isDirectory]
  cases hr : d.resolve path with
  | error cause =>
    rw [hr] at h
    cases h
  | ok found =>
    rw [hr] at h
    obtain ⟨place, kind⟩ := found
    cases kind with
    | directory => rfl
    | file id => cases h

theorem openOrCreate_of_isDirectory (h : d.isDirectory path = true) :
    d.openOrCreate path = .error .isDirectory := by
  obtain ⟨place, ht, hk⟩ := isDirectory_iff.1 h
  rw [openOrCreate, ht]
  simp [bind, Except.bind, hk]

end Disk

namespace Entry

variable {disk disk' : Disk} {e : Entry} {path : String} {id : FileId} {size : Nat}

theorem mapFile_of_isDirectory (h : disk.isDirectory path = true) (size : Nat) :
    mapFile disk path size = (.error .isDirectory, disk) := by
  obtain ⟨place, ht, -⟩ := Disk.isDirectory_iff.1 h
  rw [mapFile_eq_openMapped (fun p hp => Disk.isDirectory_of_parent? ht hp)]
  simp only [openMapped, Disk.openOrCreate_of_isDirectory h]

theorem mapFile_of_not_admits (h : disk.Bound path id) (hnot : ¬ disk.Admits size) :
    ∃ cause, mapFile disk path size = (.error cause, (disk.mapSized id size).2) := by
  obtain ⟨cause, hfail⟩ := Disk.mapSized_fst_of_not_admits hnot id
  exact ⟨cause, by rw [mapFile_eq_mapSized h, hfail]; rfl⟩

theorem backingPath_of_path (h : e.path = some path) : e.backingPath = path := by
  rw [backingPath, h, Option.getD_some]

/-- An entry whose file is refused stays as it is if it had the path before. -/
theorem openFile_of_error (hm : e.mapping = none) (hp : e.path = some path) {cause : IoError}
    (h : mapFile disk path e.size = (.error cause, disk')) :
    e.openFile disk = (.error (.io cause), e, disk') := by
  have hpath := backingPath_of_path hp
  rw [openFile_of_unmapped hm, hpath, h, ← hp]

theorem openFile_of_directory (hm : e.mapping = none) (hp : e.path = some path)
    (ho : disk.openToRead path = .ok .directory) :
    ∃ cause, e.openFile disk = (.error cause, e, disk) :=
  ⟨_, openFile_of_error hm hp (mapFile_of_isDirectory (Disk.isDirectory_of_openToRead ho) e.size)⟩

theorem openFile_of_not_admits (hd : disk.WellFormed) (hm : e.mapping = none)
    (hp : e.path = some path) (ho : disk.openToRead path = .ok (.file id))
    (hnot : ¬ disk.Admits e.size) :
    ∃ cause, e.openFile disk = (.error cause, e, (disk.mapSized id e.size).2) := by
  obtain ⟨cause, h⟩ := mapFile_of_not_admits (hd.bound_of_openToRead ho) hnot
  exact ⟨_, openFile_of_error hm hp h⟩

theorem openFile_of_file (hd : disk.WellFormed) (hm : e.mapping = none) (hp : e.path = some path)
    (ho : disk.openToRead path = .ok (.file id)) (hsize : disk.Admits e.size) :
    e.openFile disk =
      (.ok (), e.opened id, disk.setFile id ((disk.file id).setLength e.size)) := by
  refine openFile_of_mapFile hm ?_
  rw [backingPath_of_path hp]
  exact mapFile_of_bound (hd.bound_of_openToRead ho) hsize

/-- Whatever comes of opening a file that can be read, it is sized and mapped and nothing else is
done to the disk. -/
theorem openFile_disk_of_file (hd : disk.WellFormed) (hm : e.mapping = none)
    (hp : e.path = some path) (ho : disk.openToRead path = .ok (.file id)) :
    (e.openFile disk).2.2 = (disk.mapSized id e.size).2 := by
  by_cases hsize : disk.Admits e.size
  · rw [openFile_of_file hd hm hp ho hsize, Disk.mapSized_of_admits hsize]
  · obtain ⟨cause, h⟩ := openFile_of_not_admits hd hm hp ho hsize
    rw [h]

end Entry

end FileMesh
