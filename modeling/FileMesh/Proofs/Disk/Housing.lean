import FileMesh.Proofs.Disk.Parent
import FileMesh.Proofs.Path.Join

/-!
# The directory in which files are made

A store makes files in one directory, which is made before the first of them. Making it once is
enough: afterwards it is there or it cannot be made, and trying again changes nothing. Once it is
there, a name in it leads to the same place whatever else is added to the disk.
-/

namespace FileMesh.Disk

variable {d d' : Disk} {p q r place : Place} {path dir name : String} {id : FileId}
  {f : FileContent} {names : List String}

/-! ## Contents and paths -/

@[simp] theorem target_setFile (d : Disk) (id : FileId) (f : FileContent) (path : String) :
    (d.setFile id f).target path = d.target path :=
  target_congr (d.kind?_setFile id f) rfl path

@[simp] theorem isDirectory_setFile (d : Disk) (id : FileId) (f : FileContent) (path : String) :
    (d.setFile id f).isDirectory path = d.isDirectory path := by
  rw [isDirectory, isDirectory, resolve, resolve, target_setFile]
  rfl

theorem makeDirectory_setFile (d : Disk) (id : FileId) (f : FileContent) (path : String) :
    (d.setFile id f).makeDirectory path = (d.makeDirectory path).map (·.setFile id f) := by
  rw [makeDirectory, makeDirectory, target_setFile]
  cases d.target path with
  | error cause => rfl
  | ok place =>
    show (if !endsInName path ∨ (d.kind? place).isSome then .error IoError.alreadyExists
      else .ok ((d.link place .directory).setFile id f)) = Except.map (·.setFile id f)
        (if !endsInName path ∨ (d.kind? place).isSome then .error IoError.alreadyExists
          else .ok (d.link place .directory))
    split <;> rfl

theorem makeDirectories_finish_setFile (d : Disk) (id : FileId) (f : FileContent) (path : String) :
    makeDirectories.finish (d.setFile id f) path =
      ((makeDirectories.finish d path).1, (makeDirectories.finish d path).2.setFile id f) := by
  rw [makeDirectories.finish, makeDirectories.finish, makeDirectory_setFile, isDirectory_setFile]
  cases d.makeDirectory path with
  | ok d' => rfl
  | error cause =>
    simp only [Except.map]
    split <;> rfl

theorem makeDirectories_go_setFile (n : Nat) (d : Disk) (id : FileId) (f : FileContent)
    (path : String) : makeDirectories.go n (d.setFile id f) path =
      ((makeDirectories.go n d path).1, (makeDirectories.go n d path).2.setFile id f) := by
  induction n generalizing path with
  | zero => rfl
  | succ n ih =>
    rw [makeDirectories.go, makeDirectories.go, makeDirectory_setFile, isDirectory_setFile]
    by_cases hp : path = ""
    · simp [hp]
    · rw [if_neg hp, if_neg hp]
      cases hm : d.makeDirectory path with
      | ok d' => rfl
      | error cause =>
        cases cause with
        | notFound =>
          simp only [Except.map]
          cases Path.parent? path with
          | none => rfl
          | some parent =>
            simp only [ih]
            obtain ⟨⟨made, d₁⟩, hgo⟩ : ∃ r, makeDirectories.go n d parent = r := ⟨_, rfl⟩
            rw [hgo]
            cases made with
            | error cause => rfl
            | ok _ => exact makeDirectories_finish_setFile d₁ id f path
        | _ =>
          simp only [Except.map]
          split <;> rfl

/-- Making directories does not look into files. -/
theorem makeDirectories_setFile (d : Disk) (id : FileId) (f : FileContent) (path : String) :
    (d.setFile id f).makeDirectories path =
      ((d.makeDirectories path).1, (d.makeDirectories path).2.setFile id f) :=
  makeDirectories_go_setFile _ d id f path

/-! ## Making directories again -/

theorem isDirectory_or_of_target {parent : String} (ht : d.target path = .ok place)
    (hp : Path.parent? path = some parent) : parent = "" ∨ d.isDirectory parent = true := by
  by_cases h0 : parent = ""
  · exact .inl h0
  · refine .inr (isDirectory_of_parent? ht ?_)
    rw [Option.filter_eq_some_iff]
    exact ⟨hp, by simpa using h0⟩

theorem makeDirectories_go_of_there (h : path = "" ∨ d.isDirectory path = true) (n : Nat) :
    makeDirectories.go (n + 1) d path = (.ok (), d) := by
  rcases h with rfl | h
  · rfl
  · exact makeDirectories_go_of_isDirectory h n

theorem target_ne_ok_of_makeDirectory (h : d.makeDirectory path = .error .notFound) :
    d.target path ≠ .ok place := by
  intro ht
  rw [makeDirectory, ht] at h
  simp only [bind, Except.bind] at h
  split at h <;> cases h

/-- A path leads nowhere if the directory around it cannot be made. -/
theorem target_ne_ok_of_go {n : Nat} {cause : IoError} {parent : String}
    (hp : Path.parent? path = some parent)
    (h : makeDirectories.go (n + 1) d parent = (.error cause, d')) : d.target path ≠ .ok place := by
  intro ht
  rw [makeDirectories_go_of_there (isDirectory_or_of_target ht hp)] at h
  cases h

theorem makeDirectory_of_target_ne_ok (h : ∀ place, d.target path ≠ .ok place) :
    (∃ cause, d.makeDirectory path = .error cause) ∧ d.isDirectory path = false := by
  constructor
  · cases ht : d.target path with
    | ok place => exact absurd ht (h place)
    | error cause => exact ⟨cause, by rw [makeDirectory, ht]; rfl⟩
  · by_contra hd
    obtain ⟨place, ht, -⟩ := isDirectory_iff.1 (Bool.of_not_eq_false hd)
    exact h place ht

/-- A directory that could not be made cannot be made the next time, and nothing changes then. -/
theorem makeDirectories_go_of_error {n : Nat} {cause : IoError}
    (h : makeDirectories.go n d path = (.error cause, d')) :
    ∃ cause', makeDirectories.go n d' path = (.error cause', d') := by
  -- The recursion goes up the path. What was made on the way is there the next time, so it ends at
  -- the same step.
  induction n generalizing path cause d' with
  | zero =>
    cases h
    exact ⟨_, rfl⟩
  | succ n ih =>
    have hfirst := h
    rw [makeDirectories.go] at h
    by_cases hp : path = ""
    · rw [if_pos hp] at h
      cases h
    · rw [if_neg hp] at h
      split at h
      · cases h
      · rename_i hm
        split at h
        · cases h
          exact ⟨_, hfirst⟩
        · rename_i parent hparent
          obtain ⟨⟨made, d₁⟩, hgo⟩ : ∃ r, makeDirectories.go n d parent = r := ⟨_, rfl⟩
          rw [hgo] at h
          cases made with
          | error cause =>
            cases h
            obtain ⟨cause', hagain⟩ := ih hgo
            obtain ⟨⟨e, he⟩, hd⟩ : (∃ e, d'.makeDirectory path = .error e) ∧
                d'.isDirectory path = false := by
              refine makeDirectory_of_target_ne_ok fun place => ?_
              cases n with
              | zero =>
                cases hgo
                exact target_ne_ok_of_makeDirectory hm
              | succ n => exact target_ne_ok_of_go hparent hagain
            rw [makeDirectories.go, if_neg hp, he]
            cases e <;> simp [hparent, hagain, hd]
          | ok _ =>
            have hagain : makeDirectories.go n d₁ parent = (.ok (), d₁) := by
              have hthere := (makeDirectories_go_spec n d parent).2
              rw [hgo] at hthere
              cases n with
              | zero => cases hgo
              | succ n => exact makeDirectories_go_of_there (hthere rfl) n
            have hfinish := h
            simp only [makeDirectories.finish] at h
            split at h
            · cases h
            · rename_i e he
              split at h
              · cases h
              · rename_i hd
                cases h
                rw [makeDirectories.go, if_neg hp, he]
                simp only at hfinish
                cases cause <;> simp [hparent, hagain, hd, hfinish]
      · split at h
        · cases h
        · cases h
          exact ⟨_, hfirst⟩

/-- The directory in which a store makes files is there. -/
def Housed (d : Disk) (dir : String) : Prop :=
  d.makeDirectories (Path.plain dir) = (.ok (), d)

/-- Making the directory in which a store makes files changes nothing any more, be it that it is
there or that it cannot be made. -/
def Settled (d : Disk) (dir : String) : Prop :=
  (d.makeDirectories (Path.plain dir)).2 = d

theorem Housed.settled (h : d.Housed dir) : d.Settled dir := by
  rw [Settled, h]

theorem housed_iff :
    d.Housed dir ↔ Path.plain dir = "" ∨ d.isDirectory (Path.plain dir) = true := by
  constructor
  · intro h
    have hspec := (d.makeDirectories_spec (Path.plain dir)).2
    rw [h] at hspec
    exact hspec rfl
  · exact fun h => makeDirectories_go_of_there h _

theorem Housed.mono (h : d.Housed dir) (hle : d.Le d') : d'.Housed dir :=
  housed_iff.2 ((housed_iff.1 h).imp_right hle.isDirectory)

/-- What was made is there. -/
theorem housed_makeDirectories (h : (d.makeDirectories (Path.plain dir)).1 = .ok ()) :
    (d.makeDirectories (Path.plain dir)).2.Housed dir :=
  housed_iff.2 ((d.makeDirectories_spec (Path.plain dir)).2 h)

/-- What could not be made cannot be made the next time. -/
theorem makeDirectories_of_error {cause : IoError}
    (h : d.makeDirectories path = (.error cause, d')) :
    ∃ cause', d'.makeDirectories path = (.error cause', d') :=
  makeDirectories_go_of_error h

/-- Making the directory once is enough, even if it fails. -/
theorem settled_makeDirectories (d : Disk) (dir : String) :
    (d.makeDirectories (Path.plain dir)).2.Settled dir := by
  obtain ⟨⟨made, d'⟩, hm⟩ : ∃ r, d.makeDirectories (Path.plain dir) = r := ⟨_, rfl⟩
  cases made with
  | ok _ => exact (housed_makeDirectories (by rw [hm])).settled
  | error cause =>
    obtain ⟨cause', hagain⟩ := makeDirectories_of_error hm
    rw [hm, Settled, hagain]

theorem Settled.setFile (h : d.Settled dir) (id : FileId) (f : FileContent) :
    (d.setFile id f).Settled dir := by
  rw [Settled, makeDirectories_setFile, h]

/-! ## Paths into the directory -/

theorem kind?_of_follow (hf : d.follow p names = .ok q) (hq : d.kind? q = some .directory) :
    d.kind? p = some .directory := by
  cases names with
  | nil =>
    cases hf
    exact hq
  | cons name names =>
    obtain ⟨r, he, -⟩ := follow_cons_eq_ok_iff.1 hf
    exact (enter_eq_ok_iff.1 he).1

/-- On the way to a directory dots may be passed. -/
theorem follow_of_filter (hq : d.kind? q = some .directory)
    (hf : d.follow p (names.filter (· ≠ ".")) = .ok q) : d.follow p names = .ok q := by
  induction names generalizing p with
  | nil => exact hf
  | cons name names ih =>
    by_cases hdot : name = "."
    · subst hdot
      rw [List.filter_cons_of_neg (by simp)] at hf
      have hp := kind?_of_follow hf hq
      exact follow_cons_eq_ok_iff.2 ⟨p, enter_eq_ok_iff.2 ⟨hp, .inl ⟨rfl, rfl⟩⟩, ih hf⟩
    · rw [List.filter_cons_of_pos (by simpa using hdot)] at hf
      obtain ⟨r, he, hf⟩ := follow_cons_eq_ok_iff.1 hf
      exact follow_cons_eq_ok_iff.2 ⟨r, he, ih hf⟩

/-- Whoever is housed finds the way to the directory. -/
theorem Housed.exists_follow (hd : d.WellFormed) (h : d.Housed dir) :
    ∃ r, d.follow (d.start dir) (Path.pieces dir) = .ok r ∧ d.kind? r = some .directory := by
  obtain ⟨hsteps, habsolute⟩ := Path.plain_spec dir
  have hstart : d.start dir = d.start (Path.plain dir) := by rw [start, start, habsolute]
  rcases housed_iff.1 h with h0 | hdir
  · -- The empty path leads nowhere on a disk, but names in it start where all relative paths start.
    rw [h0] at hsteps hstart
    have hnil : (Path.pieces dir).filter (· ≠ ".") = [] := hsteps.symm
    refine ⟨d.here, follow_of_filter hd.here ?_, hd.here⟩
    rw [hnil, hstart]
    rfl
  · obtain ⟨r, ht, hk⟩ := isDirectory_iff.1 hdir
    have hf := follow_filter (target_eq_ok_iff.1 ht).2
    refine ⟨r, follow_of_filter hk ?_, hk⟩
    rw [hstart]
    rw [← Path.steps, hsteps] at hf
    exact hf

theorem start_join (h : Path.IsName name) : d.start (Path.join dir name) = d.start dir := by
  rw [start, start, Path.isAbsolute_join h]

theorem follow_concat (h : d.follow p names = .ok r) (name : String) :
    d.follow p (names ++ [name]) = d.enter r name := by
  induction names generalizing p with
  | nil =>
    obtain rfl := Except.ok.inj h
    show (d.enter p name >>= fun q => .ok q) = _
    cases d.enter p name <;> rfl
  | cons first names ih =>
    obtain ⟨q, he, hf⟩ := follow_cons_eq_ok_iff.1 h
    show (d.enter p first >>= fun q => d.follow q (names ++ [name])) = _
    rw [he]
    exact ih hf

/-- A name in the directory leads to the same place, or fails in the same way, on every disk that
has the directory. -/
theorem Housed.target_join (hd : d.WellFormed) (h : d.Housed dir) (hle : d.Le d')
    (hn : Path.IsName name) :
    d'.target (Path.join dir name) = d.target (Path.join dir name) := by
  obtain ⟨r, hf, hk⟩ := h.exists_follow hd
  have hstart : d'.start dir = d.start dir := by rw [start, start, hle.here]
  rw [target, target, Path.pieces_join hn, start_join hn, start_join hn, follow_concat hf, hstart,
    follow_concat (hle.follow hf), enter, enter, hk, hle.kind? hk]

end FileMesh.Disk
