import FileMesh.Proofs.Disk.Housing

/-!
# Places that paths name

A path names a place by its text alone: names lead in, two dots lead out. Where it leads at all, it
leads there. Different names in one directory have different places. What is done at one place is
not seen at another: the tree stays as it is elsewhere, but for the directory in which files are
made, and files elsewhere keep their bytes.
-/

namespace FileMesh.Disk

variable {d d' : Disk} {p q : Place} {path dir name : String} {id : FileId} {names : List String}

/-! ## Places -/

/-- One step along a path, as if there was a directory everywhere. -/
def walk (place : Place) (piece : String) : Place :=
  if piece = "." then place else if piece = ".." then place.tail else piece :: place

/-- The place a path names, whether or not the way there is open. -/
def site (d : Disk) (path : String) : Place := (Path.pieces path).foldl walk (d.start path)

theorem walk_of_enter (h : d.enter p name = .ok q) : walk p name = q := by
  obtain ⟨-, ⟨hdot, rfl⟩ | ⟨hdot, ⟨hup, rfl⟩ | ⟨hup, -, rfl⟩⟩⟩ := enter_eq_ok_iff.1 h
  · rw [walk, if_pos hdot]
  · rw [walk, if_neg hdot, if_pos hup]
  · rw [walk, if_neg hdot, if_neg hup]

theorem foldl_walk_of_follow (h : d.follow p names = .ok q) : names.foldl walk p = q := by
  induction names generalizing p with
  | nil => exact Except.ok.inj h
  | cons name names ih =>
    obtain ⟨r, he, hf⟩ := follow_cons_eq_ok_iff.1 h
    rw [List.foldl_cons, walk_of_enter he]
    exact ih hf

/-- Where a path leads, it leads to the place it names. -/
theorem site_of_target (h : d.target path = .ok q) : d.site path = q :=
  foldl_walk_of_follow (target_eq_ok_iff.1 h).2

theorem Le.site (h : d.Le d') (path : String) : d'.site path = d.site path := by
  rw [Disk.site, Disk.site, start, start, h.here]

/-- A name in a directory has its place right inside the place of the directory. -/
theorem site_join (h : Path.IsName name) : d.site (Path.join dir name) = name :: d.site dir := by
  rw [site, Path.pieces_join h, List.foldl_append, start_join h, List.foldl_cons, List.foldl_nil,
    walk, if_neg h.ne_dot, if_neg h.ne_up]
  rfl

theorem Bound.kind?_site (h : d.Bound path id) : d.kind? (d.site path) = some (.file id) := by
  obtain ⟨place, ht, hk⟩ := h.target
  rw [site_of_target ht, hk]

/-! ## One name for a file -/

/-- A well-formed disk on which no file has two names. -/
structure Tidy (d : Disk) : Prop extends WellFormed d where
  single : ∀ {p q id}, d.kind? p = some (.file id) → d.kind? q = some (.file id) → p = q

theorem tidy_empty : empty.Tidy where
  toWellFormed := wellFormed_empty
  single := fun hp => absurd (wellFormed_empty.file_lt hp) (Nat.not_lt_zero _)

theorem Tidy.of_grows (h : d.Tidy) (hg : d.Grows d') : d'.Tidy where
  toWellFormed := hg.wellFormed h.toWellFormed
  single := fun hp hq => h.single (hg.file hp) (hg.file hq)

theorem Tidy.setFile (h : d.Tidy) (id : FileId) (f : FileContent) : (d.setFile id f).Tidy where
  toWellFormed := h.toWellFormed.setFile id f
  single := h.single

theorem Tidy.create (h : d.Tidy) (hk : d.kind? q = none)
    (ht : d.kind? q.tail = some .directory) : (d.create q).Tidy where
  toWellFormed := h.toWellFormed.create hk ht
  single := by
    -- The number of the new file is that of no other one.
    intro a b id ha hb
    rw [kind?_create d (ne_nil_of_kind?_eq_none hk)] at ha hb
    split at ha <;> split at hb
    · simp_all
    · cases ha
      exact absurd (h.file_lt hb) (Nat.lt_irrefl _)
    · cases hb
      exact absurd (h.file_lt ha) (Nat.lt_irrefl _)
    · exact h.single ha hb

/-! ## Changes at one place -/

/-- One change that using a file at the place `q` makes, for a store that makes files in `dir`: the
directory is made, an empty file is made in it, or the file at the place is changed. -/
inductive Touch (dir : String) (q : Place) (d : Disk) : Disk → Prop
  | prepare : Touch dir q d (d.makeDirectories (Path.plain dir)).2
  | create (hh : d.Housed dir) (hk : d.kind? q = none) (ht : d.kind? q.tail = some .directory) :
    Touch dir q d (d.create q)
  | change {id : FileId} (hk : d.kind? q = some (.file id)) (f : FileContent) :
    Touch dir q d (d.setFile id f)

namespace Touch

theorem le (h : Touch dir q d d') : d.Le d' := by
  cases h with
  | prepare => exact (d.makeDirectories_spec _).1.le
  | create _ hk _ => exact le_create hk
  | change _ f => exact d.le_setFile _ f

theorem wellFormed (hd : d.WellFormed) (h : Touch dir q d d') : d'.WellFormed := by
  cases h with
  | prepare => exact (d.makeDirectories_spec _).1.wellFormed hd
  | create _ hk ht => exact hd.create hk ht
  | change _ f => exact hd.setFile _ f

theorem tidy (hd : d.Tidy) (h : Touch dir q d d') : d'.Tidy := by
  cases h with
  | prepare => exact hd.of_grows (d.makeDirectories_spec _).1
  | create _ hk ht => exact hd.create hk ht
  | change _ f => exact hd.setFile _ f

/-- Where making the directory changed nothing more, it still changes nothing. -/
theorem settled (h : Touch dir q d d') (hs : d.Settled dir) : d'.Settled dir := by
  cases h with
  | prepare => exact d.settled_makeDirectories dir
  | create hh hk _ => exact (hh.mono (le_create hk)).settled
  | change _ f => exact hs.setFile _ f

/-- The directory can still be made. -/
theorem makeDirectories (h : Touch dir q d d')
    (hm : (d.makeDirectories (Path.plain dir)).1 = .ok ()) :
    (d'.makeDirectories (Path.plain dir)).1 = .ok () := by
  cases h with
  | prepare => rw [housed_makeDirectories hm]
  | create hh hk _ => rw [hh.mono (le_create hk)]
  | change _ f =>
    rw [makeDirectories_setFile]
    exact hm

/-- A file at another place keeps its bytes. -/
theorem file (hd : d.Tidy) (h : Touch dir q d d') (hk : d.kind? p = some (.file id))
    (hne : p ≠ q) : d'.file id = d.file id := by
  cases h with
  | prepare => exact (d.makeDirectories_spec _).1.file_eq id
  | create => exact file_create d _ id
  | change hq f =>
    refine file_setFile_of_ne d ?_ f
    rintro rfl
    exact hne (hd.single hk hq)

end Touch

/-! ## Disks that show the same at a path -/

/-- Two disks show the same at a path: it leads to the same place, or fails in the same way, and
what stands there is the same. -/
structure Agrees (d d' : Disk) (path : String) : Prop where
  target : d'.target path = d.target path
  kind? : ∀ {q}, d.target path = .ok q → d'.kind? q = d.kind? q
  file : ∀ {q id}, d.target path = .ok q → d.kind? q = some (.file id) → d'.file id = d.file id

namespace Agrees

theorem refl (d : Disk) (path : String) : Agrees d d path :=
  ⟨rfl, fun _ => rfl, fun _ _ => rfl⟩

theorem openToRead (h : Agrees d d' path) : d'.openToRead path = d.openToRead path := by
  rw [Disk.openToRead, Disk.openToRead, resolve, resolve, h.target]
  cases ht : d.target path with
  | error cause => rfl
  | ok q =>
    simp only [bind, Except.bind]
    rw [h.kind? ht]

theorem file_of_openToRead (h : Agrees d d' path) (ho : d.openToRead path = .ok (.file id)) :
    d'.file id = d.file id := by
  obtain ⟨q, ht, hk, -⟩ := openToRead_file_iff.1 ho
  exact h.file ht hk

end Agrees

/-- A path to a file is not disturbed by what is done at another place. -/
theorem Touch.agrees_of_bound (hd : d.Tidy) (h : Touch dir q d d') (hb : d.Bound path id)
    (hne : d.site path ≠ q) : Agrees d d' path := by
  obtain ⟨place, ht, hk⟩ := hb.target
  refine ⟨(h.le.target ht).trans ht.symm, fun hp => ?_, fun hp hf => ?_⟩
  · cases ht.symm.trans hp
    rw [hk, h.le.kind? hk]
  · cases ht.symm.trans hp
    exact h.file hd hf (site_of_target ht ▸ hne)

/-- Nor is a path into the directory, once making the directory changes nothing more. -/
theorem Touch.agrees_of_settled (hd : d.Tidy) (h : Touch dir q d d') (hs : d.Settled dir)
    (hn : Path.IsName name) (hne : d.site (Path.join dir name) ≠ q) :
    Agrees d d' (Path.join dir name) := by
  have hfile {p : Place} {id : FileId} (hp : d.target (Path.join dir name) = .ok p)
      (hf : d.kind? p = some (.file id)) : d'.file id = d.file id :=
    h.file hd hf (site_of_target hp ▸ hne)
  cases h with
  | prepare =>
    rw [hs]
    exact .refl d _
  | create hh hk ht =>
    refine ⟨hh.target_join hd.toWellFormed (le_create hk) hn, fun hp => ?_, hfile⟩
    rw [kind?_create d (ne_nil_of_kind?_eq_none hk), if_neg]
    rintro rfl
    exact hne (site_of_target hp)
  | change hq f => exact ⟨target_setFile d _ f _, fun _ => rfl, hfile⟩

end FileMesh.Disk
