import FileMesh.Disk.OpenFile
import Mathlib.Tactic.Common

/-!
# The tree of a disk

Whatever is on a disk stands in a directory, and every file has its bytes. Operations add to the
tree and take nothing away, so a path that led somewhere still leads there afterwards.
-/

namespace FileMesh

/-- An operation that may fail succeeded after a first step if both did. -/
theorem Except.bind_eq_ok_iff {ε α β : Type} {x : Except ε α} {f : α → Except ε β} {b : β} :
    x >>= f = .ok b ↔ ∃ a, x = .ok a ∧ f a = .ok b := by
  cases x <;> simp [bind, Except.bind]

namespace Disk

variable {d d' : Disk} {place p q : Place} {kind : NodeKind} {path name : String}

/-- Files have bytes, whatever stands somewhere stands in a directory, and relative paths start in
one. -/
structure WellFormed (d : Disk) : Prop where
  file_lt : ∀ {place id}, d.kind? place = some (.file id) → id < d.contents.length
  tail : ∀ {place kind}, d.kind? place = some kind → d.kind? place.tail = some .directory
  here : d.kind? d.here = some .directory

/-- All that stands on `d` stands on `d'`, paths start in the same place, and the system is the
same. -/
structure Le (d d' : Disk) : Prop where
  kind? : ∀ {place kind}, d.kind? place = some kind → d'.kind? place = some kind
  here : d'.here = d.here
  length : d.contents.length ≤ d'.contents.length
  system : d'.system = d.system

theorem kind?_nil (d : Disk) : d.kind? [] = some .directory := rfl

theorem wellFormed_empty : empty.WellFormed := by
  have hkind {place : Place} {kind : NodeKind} (h : empty.kind? place = some kind) :
      kind = .directory ∧ (place = [] ∨ place = ["work"]) := by
    simp only [Disk.kind?, empty, List.lookup_cons, List.lookup_nil] at h
    split at h
    · rename_i hp
      cases h
      exact ⟨rfl, .inl hp⟩
    · split at h
      · rename_i hp
        cases h
        exact ⟨rfl, .inr (by simpa using hp)⟩
      · cases h
  constructor
  · intro place id h
    cases (hkind h).1
  · intro place kind h
    obtain ⟨-, rfl | rfl⟩ := hkind h <;> rfl
  · rfl

/-! ## Adding to the tree -/

theorem kind?_link (d : Disk) (hp : p ≠ []) (kind : NodeKind) (q : Place) :
    (d.link p kind).kind? q = if q = p then some kind else d.kind? q := by
  by_cases hq : q = []
  · subst hq
    rw [if_neg (Ne.symm hp)]
    rfl
  · simp only [Disk.kind?, link, if_neg hq, List.lookup_cons]
    by_cases hqp : q = p
    · simp [hqp]
    · simp [hqp, beq_eq_false_iff_ne.2 hqp]

theorem ne_nil_of_kind?_eq_none (h : d.kind? p = none) : p ≠ [] := by
  rintro rfl
  cases h

theorem Le.refl (d : Disk) : d.Le d := ⟨id, rfl, Nat.le_refl _, rfl⟩

theorem Le.trans {d'' : Disk} (h : d.Le d') (h' : d'.Le d'') : d.Le d'' :=
  ⟨fun hk => h'.kind? (h.kind? hk), h'.here.trans h.here, Nat.le_trans h.length h'.length,
    h'.system.trans h.system⟩

theorem le_link (h : d.kind? p = none) (kind : NodeKind) : d.Le (d.link p kind) := by
  refine ⟨fun {q k} hq => ?_, rfl, Nat.le_refl _, rfl⟩
  rw [kind?_link d (ne_nil_of_kind?_eq_none h), if_neg]
  · exact hq
  · rintro rfl
    rw [h] at hq
    cases hq

theorem le_setFile (d : Disk) (id : FileId) (f : FileContent) : d.Le (d.setFile id f) :=
  ⟨fun h => h, rfl, by simp [setFile], rfl⟩

theorem WellFormed.setFile (h : d.WellFormed) (id : FileId) (f : FileContent) :
    (d.setFile id f).WellFormed :=
  ⟨fun hk => by simpa [Disk.setFile] using h.file_lt hk, h.tail, h.here⟩

/-- A directory that is made in a directory. -/
theorem WellFormed.link_directory (h : d.WellFormed) (hp : d.kind? p = none)
    (htail : d.kind? p.tail = some .directory) : (d.link p .directory).WellFormed := by
  have hne := ne_nil_of_kind?_eq_none hp
  have hle := le_link hp .directory
  constructor
  · intro q id hq
    rw [kind?_link d hne] at hq
    split at hq
    · cases hq
    · exact h.file_lt hq
  · intro q kind hq
    rw [kind?_link d hne] at hq
    split at hq
    · rename_i hqp
      subst hqp
      exact hle.kind? htail
    · exact hle.kind? (h.tail hq)
  · exact hle.kind? h.here

/-- The disk with an empty file at a place where nothing stood. -/
def create (d : Disk) (place : Place) : Disk :=
  { d.link place (.file d.contents.length) with contents := d.contents ++ [.ofBytes []] }

theorem kind?_create (d : Disk) (hp : p ≠ []) (q : Place) :
    (d.create p).kind? q = if q = p then some (.file d.contents.length) else d.kind? q :=
  kind?_link d hp _ q

theorem le_create (h : d.kind? p = none) : d.Le (d.create p) :=
  ⟨(le_link h _).kind?, rfl, by simp [create], rfl⟩

/-- A file that is made is empty, and so is what a number stands for that no file has. -/
theorem file_create (d : Disk) (p : Place) (id : FileId) : (d.create p).file id = d.file id := by
  rcases Nat.lt_trichotomy id d.contents.length with h | rfl | h
  · simp [file, create, List.getElem?_append_left h]
  · simp [file, create]
  · have hlen : (d.contents ++ [FileContent.ofBytes []]).length ≤ id := by
      rw [List.length_append]
      exact h
    simp [file, create, List.getElem?_eq_none hlen, Nat.le_of_lt h]

/-- An empty file that is made in a directory. -/
theorem WellFormed.create (h : d.WellFormed) (hp : d.kind? p = none)
    (htail : d.kind? p.tail = some .directory) : (d.create p).WellFormed := by
  have hne := ne_nil_of_kind?_eq_none hp
  have hle := le_create hp
  constructor
  · intro q id hq
    rw [kind?_create d hne] at hq
    rw [Disk.create, List.length_append, List.length_singleton]
    split at hq
    · cases hq
      exact Nat.lt_succ_self _
    · exact Nat.lt_succ_of_lt (h.file_lt hq)
  · intro q kind hq
    rw [kind?_create d hne] at hq
    split at hq
    · rename_i hqp
      subst hqp
      exact hle.kind? htail
    · exact hle.kind? (h.tail hq)
  · exact hle.kind? h.here

/-! ## Following paths -/

theorem enter_eq_ok_iff : d.enter p name = .ok q ↔ d.kind? p = some .directory ∧
    (name = "." ∧ q = p ∨ name ≠ "." ∧ (name = ".." ∧ q = p.tail ∨
      name ≠ ".." ∧ name.utf8ByteSize ≤ longestName ∧ q = name :: p)) := by
  rw [enter]
  cases d.kind? p with
  | none => simp
  | some kind =>
    cases kind with
    | file id => simp
    | directory =>
      by_cases hdot : name = "."
      · simp [hdot, eq_comm]
      · by_cases hup : name = ".."
        · simp [hup, eq_comm]
        · by_cases hlong : longestName < name.utf8ByteSize
          · simp [hdot, hup, hlong, Nat.not_le.2 hlong]
          · simp [hdot, hup, hlong, Nat.le_of_not_lt hlong, eq_comm]

theorem follow_cons_eq_ok_iff {names : List String} :
    d.follow p (name :: names) = .ok q ↔ ∃ r, d.enter p name = .ok r ∧ d.follow r names = .ok q :=
  Except.bind_eq_ok_iff

theorem target_eq_ok_iff : d.target path = .ok q ↔
    checkPath path = .ok () ∧ d.follow (d.start path) (Path.pieces path) = .ok q := by
  rw [target, Except.bind_eq_ok_iff]
  exact ⟨fun ⟨(), hc, hf⟩ => ⟨hc, hf⟩, fun ⟨hc, hf⟩ => ⟨(), hc, hf⟩⟩

theorem Le.enter (h : d.Le d') (he : d.enter p name = .ok q) : d'.enter p name = .ok q := by
  rw [enter_eq_ok_iff] at he ⊢
  exact ⟨h.kind? he.1, he.2⟩

theorem Le.follow (h : d.Le d') {names : List String} (hf : d.follow p names = .ok q) :
    d'.follow p names = .ok q := by
  induction names generalizing p with
  | nil => exact hf
  | cons name names ih =>
    obtain ⟨r, he, hf⟩ := follow_cons_eq_ok_iff.1 hf
    exact follow_cons_eq_ok_iff.2 ⟨r, h.enter he, ih hf⟩

/-- A path leads where it led. -/
theorem Le.target (h : d.Le d') (ht : d.target path = .ok q) : d'.target path = .ok q := by
  rw [target_eq_ok_iff] at ht ⊢
  refine ⟨ht.1, ?_⟩
  rw [start, h.here]
  exact h.follow ht.2

section

variable (h : ∀ place, d'.kind? place = d.kind? place)
include h

/-- Where a path leads depends on the tree alone. -/
theorem follow_congr (p : Place) (names : List String) :
    d'.follow p names = d.follow p names := by
  induction names generalizing p with
  | nil => rfl
  | cons name names ih =>
    show d'.enter p name >>= (fun q => d'.follow q names) =
      d.enter p name >>= fun q => d.follow q names
    simp only [ih, enter, h]

theorem target_congr (hhere : d'.here = d.here) (path : String) :
    d'.target path = d.target path := by
  rw [target, target, start, hhere, follow_congr h]
  rfl

end

theorem isDirectory_iff : d.isDirectory path = true ↔
    ∃ place, d.target path = .ok place ∧ d.kind? place = some .directory := by
  rw [isDirectory, resolve]
  cases ht : d.target path with
  | error cause => simp [bind, Except.bind]
  | ok place =>
    simp only [bind, Except.bind, Except.ok.injEq, exists_eq_left']
    cases hk : d.kind? place with
    | none => simp
    | some kind =>
      cases kind with
      | directory => simp
      | file id => cases Path.endsInSeparator path <;> simp

theorem Le.isDirectory (h : d.Le d') (hd : d.isDirectory path = true) :
    d'.isDirectory path = true := by
  rw [isDirectory_iff] at hd ⊢
  obtain ⟨place, ht, hk⟩ := hd
  exact ⟨place, h.target ht, h.kind? hk⟩

/-- Where a path leads, there is a directory around. -/
theorem WellFormed.tail_of_target (h : d.WellFormed) (ht : d.target path = .ok q) :
    d.kind? q.tail = some .directory := by
  have hfollow {p : Place} {names : List String} (hp : d.kind? p.tail = some .directory)
      (hf : d.follow p names = .ok q) : d.kind? q.tail = some .directory := by
    induction names generalizing p with
    | nil =>
      cases hf
      exact hp
    | cons name names ih =>
      obtain ⟨r, he, hf⟩ := follow_cons_eq_ok_iff.1 hf
      refine ih ?_ hf
      obtain ⟨hdir, ⟨-, rfl⟩ | ⟨-, ⟨-, rfl⟩ | ⟨-, -, rfl⟩⟩⟩ := enter_eq_ok_iff.1 he
      · exact hp
      · exact h.tail hp
      · exact hdir
  refine hfollow ?_ (target_eq_ok_iff.1 ht).2
  rw [start]
  split
  · rfl
  · exact h.tail h.here

/-! ## Making directories -/

theorem makeDirectory_eq_ok_iff : d.makeDirectory path = .ok d' ↔
    ∃ place, d.target path = .ok place ∧ endsInName path = true ∧ d.kind? place = none ∧
      d' = d.link place .directory := by
  rw [makeDirectory, Except.bind_eq_ok_iff]
  refine exists_congr fun place => and_congr_right fun _ => ?_
  cases endsInName path <;> cases d.kind? place <;> simp [eq_comm]

/-- What making directories does to a disk, whether or not it succeeds. -/
structure Grows (d d' : Disk) : Prop where
  le : d.Le d'
  wellFormed : d.WellFormed → d'.WellFormed
  contents : d'.contents = d.contents
  file : ∀ {place id}, d'.kind? place = some (.file id) → d.kind? place = some (.file id)

theorem Grows.refl (d : Disk) : d.Grows d := ⟨.refl d, id, rfl, id⟩

theorem Grows.trans {d'' : Disk} (h : d.Grows d') (h' : d'.Grows d'') : d.Grows d'' :=
  ⟨h.le.trans h'.le, fun hd => h'.wellFormed (h.wellFormed hd), h'.contents.trans h.contents,
    fun hk => h.file (h'.file hk)⟩

theorem Grows.file_eq (h : d.Grows d') (id : FileId) : d'.file id = d.file id := by
  rw [Disk.file, Disk.file, h.contents]

theorem Grows.content (h : d.Grows d') (id : FileId) : d'.content id = d.content id :=
  congrArg FileContent.bytes (h.file_eq id)

theorem makeDirectory_spec (h : d.makeDirectory path = .ok d') :
    d.Grows d' ∧ d'.isDirectory path = true := by
  obtain ⟨place, ht, -, hk, rfl⟩ := makeDirectory_eq_ok_iff.1 h
  have hle := le_link hk .directory
  have hne := ne_nil_of_kind?_eq_none hk
  refine ⟨⟨hle, fun hd => hd.link_directory hk (hd.tail_of_target ht), rfl, ?_⟩, ?_⟩
  · intro q id hq
    rw [kind?_link d hne] at hq
    split at hq
    · cases hq
    · exact hq
  · refine isDirectory_iff.2 ⟨place, hle.target ht, ?_⟩
    rw [kind?_link d hne, if_pos rfl]

theorem makeDirectories_finish_spec (d : Disk) (path : String) :
    d.Grows (makeDirectories.finish d path).2 ∧
      ((makeDirectories.finish d path).1 = .ok () →
        (makeDirectories.finish d path).2.isDirectory path = true) := by
  rw [makeDirectories.finish]
  cases hm : d.makeDirectory path with
  | ok d' =>
    obtain ⟨hg, hd⟩ := makeDirectory_spec hm
    exact ⟨hg, fun _ => hd⟩
  | error cause =>
    dsimp only
    split
    · rename_i hd
      exact ⟨.refl d, fun _ => hd⟩
    · exact ⟨.refl d, fun h => by cases h⟩

theorem makeDirectories_go_spec (n : Nat) (d : Disk) (path : String) :
    d.Grows (makeDirectories.go n d path).2 ∧
      ((makeDirectories.go n d path).1 = .ok () →
        path = "" ∨ (makeDirectories.go n d path).2.isDirectory path = true) := by
  -- The recursion goes up the path, so a failure further up is a failure here.
  induction n generalizing d path with
  | zero => exact ⟨.refl d, fun h => by cases h⟩
  | succ n ih =>
    rw [makeDirectories.go]
    by_cases hp : path = ""
    · rw [if_pos hp]
      exact ⟨.refl d, fun _ => .inl hp⟩
    · rw [if_neg hp]
      split
      · rename_i d' hm
        obtain ⟨hg, hd⟩ := makeDirectory_spec hm
        exact ⟨hg, fun _ => .inr hd⟩
      · split
        · exact ⟨.refl d, fun h => by cases h⟩
        · rename_i parent _
          obtain ⟨hg, -⟩ := ih d parent
          split
          · rename_i d' hgo
            rw [hgo] at hg
            exact ⟨hg, fun h => by cases h⟩
          · rename_i d' hgo
            rw [hgo] at hg
            obtain ⟨hg', hd⟩ := makeDirectories_finish_spec d' path
            exact ⟨hg.trans hg', fun h => .inr (hd h)⟩
      · split
        · rename_i hd
          exact ⟨.refl d, fun _ => .inr hd⟩
        · exact ⟨.refl d, fun h => by cases h⟩

/-- Directories that were made are there, and nothing else has changed. -/
theorem makeDirectories_spec (d : Disk) (path : String) :
    d.Grows (d.makeDirectories path).2 ∧ ((d.makeDirectories path).1 = .ok () →
      path = "" ∨ (d.makeDirectories path).2.isDirectory path = true) :=
  makeDirectories_go_spec _ d path

theorem makeDirectories_go_of_isDirectory (h : d.isDirectory path = true) (n : Nat) :
    makeDirectories.go (n + 1) d path = (.ok (), d) := by
  obtain ⟨place, ht, hk⟩ := isDirectory_iff.1 h
  have hm : d.makeDirectory path = .error .alreadyExists := by
    rw [makeDirectory, ht]
    simp [bind, Except.bind, hk]
  rw [makeDirectories.go, hm]
  simp [h]

/-- Nothing is done for a directory that is there. -/
theorem makeDirectories_of_isDirectory (h : d.isDirectory path = true) :
    d.makeDirectories path = (.ok (), d) :=
  makeDirectories_go_of_isDirectory h path.length

/-! ## Opening files -/

theorem openOrCreate_eq_ok_iff {id : FileId} : d.openOrCreate path = .ok (id, d') ↔
    Path.endsInSeparator path = false ∧ endsInName path = true ∧ ∃ place,
      d.target path = .ok place ∧ (d.kind? place = some (.file id) ∧ d' = d ∨
        d.kind? place = none ∧ id = d.contents.length ∧ d' = d.create place) := by
  rw [openOrCreate, Except.bind_eq_ok_iff]
  cases Path.endsInSeparator path with
  | true => simp
  | false =>
    cases endsInName path with
    | false => simp
    | true =>
      simp only [Bool.false_eq_true, Bool.not_true, or_self, if_false, true_and]
      refine exists_congr fun place => and_congr_right fun _ => ?_
      cases d.kind? place with
      | none => simp [create, eq_comm]
      | some kind => cases kind <;> simp [eq_comm]

/-- A file that was opened for writing is at its path: as it was, or empty if it was not there. -/
theorem openOrCreate_spec {id : FileId} (hd : d.WellFormed)
    (h : d.openOrCreate path = .ok (id, d')) :
    d.Le d' ∧ d'.WellFormed ∧ Path.endsInSeparator path = false ∧ endsInName path = true ∧
      ∃ place, d'.target path = .ok place ∧ d'.kind? place = some (.file id) := by
  obtain ⟨hsep, hname, place, ht, ⟨hk, rfl⟩ | ⟨hk, rfl, rfl⟩⟩ := openOrCreate_eq_ok_iff.1 h
  · exact ⟨.refl d', hd, hsep, hname, place, ht, hk⟩
  · have hle := le_create hk
    refine ⟨hle, hd.create hk (hd.tail_of_target ht), hsep, hname, place, hle.target ht, ?_⟩
    rw [kind?_create d (ne_nil_of_kind?_eq_none hk), if_pos rfl]

/-- A file that is not there counts as empty, so making it changes no content. -/
theorem content_openOrCreate {id : FileId} (h : d.openOrCreate path = .ok (id, d')) (j : FileId) :
    d'.content j = d.content j := by
  obtain ⟨-, -, place, -, ⟨-, rfl⟩ | ⟨-, -, rfl⟩⟩ := openOrCreate_eq_ok_iff.1 h
  · rfl
  · exact congrArg FileContent.bytes (file_create d place j)

/-- A file that is there once a path was opened was there before, or is the new one at the path. -/
theorem file_of_openOrCreate {id j : FileId} (h : d.openOrCreate path = .ok (id, d'))
    (hj : d'.kind? p = some (.file j)) : d.kind? p = some (.file j) ∨
      d'.target path = .ok p ∧ j = id ∧ d'.content j = [] := by
  have hcontent := content_openOrCreate h j
  obtain ⟨-, -, place, ht, ⟨-, rfl⟩ | ⟨hk, rfl, rfl⟩⟩ := openOrCreate_eq_ok_iff.1 h
  · exact .inl hj
  · rw [kind?_create d (ne_nil_of_kind?_eq_none hk)] at hj
    split at hj
    · rename_i hp
      cases hj
      refine .inr ⟨hp ▸ (le_create hk).target ht, rfl, ?_⟩
      rw [hcontent, content_of_le (Nat.le_refl _)]
    · exact .inl hj

theorem openOrCreate_of_target {id : FileId} (ht : d.target path = .ok place)
    (hk : d.kind? place = some (.file id)) (hsep : Path.endsInSeparator path = false)
    (hname : endsInName path = true) : d.openOrCreate path = .ok (id, d) := by
  rw [openOrCreate, ht]
  simp [bind, Except.bind, hsep, hname, hk]

theorem openToRead_of_target {id : FileId} (ht : d.target path = .ok place)
    (hk : d.kind? place = some (.file id)) (hsep : Path.endsInSeparator path = false) :
    d.openToRead path = .ok (.file id) := by
  rw [openToRead, resolve, ht]
  simp [bind, Except.bind, hk, hsep, Except.map]

theorem openToRead_file_iff {id : FileId} : d.openToRead path = .ok (.file id) ↔
    ∃ place, d.target path = .ok place ∧ d.kind? place = some (.file id) ∧
      Path.endsInSeparator path = false := by
  constructor
  · intro h
    rw [openToRead, resolve] at h
    cases ht : d.target path with
    | error cause =>
      rw [ht] at h
      cases h
    | ok place =>
      rw [ht] at h
      refine ⟨place, rfl, ?_⟩
      simp only [bind, Except.bind] at h
      cases hk : d.kind? place with
      | none =>
        rw [hk] at h
        cases h
      | some kind =>
        rw [hk] at h
        cases kind with
        | directory => cases h
        | file id' =>
          cases hsep : Path.endsInSeparator path <;> simp [hsep, Except.map] at h
          exact ⟨congrArg _ (congrArg _ h), rfl⟩
  · rintro ⟨place, ht, hk, hsep⟩
    exact openToRead_of_target ht hk hsep

/-- Reading a path gives the bytes of the file that can be opened there. -/
theorem read_eq_ok_iff {b : Bytes} : d.read path = .ok b ↔
    ∃ id, d.openToRead path = .ok (.file id) ∧ b = d.content id := by
  rw [read, openToRead]
  cases d.resolve path with
  | error cause => simp [bind, Except.bind, Except.map]
  | ok r =>
    obtain ⟨place, kind⟩ := r
    cases kind <;> simp [bind, Except.bind, Except.map, eq_comm]

/-! ## Writing and removing files -/

theorem kind?_unlink (d : Disk) (p q : Place) :
    (d.unlink p).kind? q = if q = [] ∨ q ≠ p then d.kind? q else none := by
  have hlookup (l : List (Place × NodeKind)) : (l.filter fun e => e.1 != p).lookup q =
      if q ≠ p then l.lookup q else none := by
    induction l with
    | nil => simp
    | cons e l ih =>
      obtain ⟨r, kind⟩ := e
      by_cases hr : r = p
      · have hdrop : ((r, kind) :: l).filter (fun e => e.1 != p) = l.filter fun e => e.1 != p :=
          List.filter_cons_of_neg (by simp [hr])
        rw [hdrop, ih, List.lookup_cons]
        by_cases hq : q = p
        · simp [hq]
        · simp [hq, beq_eq_false_iff_ne.2 fun h => hq (h.trans hr)]
      · have hkeep : ((r, kind) :: l).filter (fun e => e.1 != p) =
            (r, kind) :: l.filter fun e => e.1 != p := List.filter_cons_of_pos (by simp [hr])
        rw [hkeep, List.lookup_cons, List.lookup_cons, ih]
        by_cases hq : q = r
        · simp [hq, hr]
        · simp [beq_eq_false_iff_ne.2 hq]
  by_cases hq : q = []
  · simp [Disk.kind?, hq]
  · simp only [Disk.kind?, unlink, hq, if_false, false_or]
    exact hlookup d.entries

/-- Nothing stands in a file, so its name can be removed. -/
theorem WellFormed.unlink_file (h : d.WellFormed) {id : FileId} (hp : d.kind? p = some (.file id)) :
    (d.unlink p).WellFormed := by
  have hdir {q : Place} (hq : d.kind? q = some .directory) :
      (d.unlink p).kind? q = some .directory := by
    rw [kind?_unlink, if_pos, hq]
    refine .inr ?_
    rintro rfl
    rw [hp] at hq
    cases hq
  have hle {q : Place} {kind : NodeKind} (hq : (d.unlink p).kind? q = some kind) :
      d.kind? q = some kind := by
    rw [kind?_unlink] at hq
    split at hq
    · exact hq
    · cases hq
  exact ⟨fun hq => h.file_lt (hle hq), fun hq => hdir (h.tail (hle hq)), hdir h.here⟩

theorem WellFormed.remove (h : d.WellFormed) (hr : d.remove path = .ok d') : d'.WellFormed := by
  obtain ⟨⟨place, kind⟩, hresolve, hr⟩ := Except.bind_eq_ok_iff.1 hr
  obtain ⟨place', -, hplace⟩ := Except.bind_eq_ok_iff.1 hresolve
  cases kind with
  | directory => cases hr
  | file id =>
    cases hr
    cases hk : d.kind? place' with
    | none =>
      rw [hk] at hplace
      cases hplace
    | some kind =>
      rw [hk] at hplace
      cases kind with
      | directory => cases hplace
      | file id' =>
        have hplace : (if Path.endsInSeparator path = true then .error .notDirectory
          else .ok (place', .file id') : Except IoError (Place × NodeKind)) =
            .ok (place, .file id) := hplace
        split at hplace
        · cases hplace
        · cases hplace
          exact h.unlink_file hk

theorem WellFormed.write (h : d.WellFormed) {bytes : Bytes} (hw : d.write path bytes = .ok d') :
    d'.WellFormed := by
  obtain ⟨⟨id, d₁⟩, ho, hw⟩ := Except.bind_eq_ok_iff.1 hw
  cases hw
  obtain ⟨-, h₁, -⟩ := openOrCreate_spec h ho
  exact h₁.setFile id _

theorem WellFormed.install (h : d.WellFormed) (path : String) (bytes : Bytes) :
    (d.install path bytes).2.WellFormed := by
  have hfinish {d₁ : Disk} (h₁ : d₁.WellFormed) : (install.finish path bytes d₁).2.WellFormed := by
    rw [install.finish]
    split
    · rename_i hw
      exact h₁.write hw
    · exact h₁
  rw [Disk.install]
  cases Path.parent? path with
  | none => exact hfinish h
  | some parent =>
    have hg := (d.makeDirectories_spec parent).1.wellFormed h
    obtain ⟨⟨made, d₁⟩, hm⟩ : ∃ r, d.makeDirectories parent = r := ⟨_, rfl⟩
    rw [hm] at hg
    simp only [Option.map_some, hm]
    cases made with
    | error cause => exact hg
    | ok _ => exact hfinish hg

end Disk

end FileMesh
