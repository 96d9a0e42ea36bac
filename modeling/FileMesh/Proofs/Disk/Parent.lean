import FileMesh.Proofs.Disk.Mapping
import FileMesh.Proofs.Path

/-!
# The directory around a file

If a path leads somewhere, the path without its last part leads to a directory. So a file that can
be read can be mapped.
-/

namespace FileMesh.Disk

variable {d : Disk} {place p q : Place} {path parent : String} {id : FileId} {names : List String}

theorem follow_append {names' : List String} : d.follow p (names ++ names') = .ok q ↔
    ∃ r, d.follow p names = .ok r ∧ d.follow r names' = .ok q := by
  induction names generalizing p with
  | nil => simp [follow]
  | cons name names ih =>
    rw [List.cons_append, follow_cons_eq_ok_iff]
    simp only [ih, follow_cons_eq_ok_iff]
    constructor
    · rintro ⟨r, he, s, hs, hf⟩
      exact ⟨s, ⟨r, he, hs⟩, hf⟩
    · rintro ⟨s, ⟨r, he, hs⟩, hf⟩
      exact ⟨r, he, s, hs, hf⟩

/-- A dot leads nowhere. -/
theorem follow_filter (h : d.follow p names = .ok q) :
    d.follow p (names.filter (· ≠ ".")) = .ok q := by
  induction names generalizing p with
  | nil => exact h
  | cons name names ih =>
    obtain ⟨r, he, hf⟩ := follow_cons_eq_ok_iff.1 h
    by_cases hdot : name = "."
    · subst hdot
      obtain ⟨-, ⟨-, rfl⟩ | ⟨hne, -⟩⟩ := enter_eq_ok_iff.1 he
      · exact ih hf
      · exact absurd rfl hne
    · rw [List.filter_cons_of_pos (by simpa using hdot)]
      exact follow_cons_eq_ok_iff.2 ⟨r, he, ih hf⟩

theorem checkPath_eq_ok_iff : checkPath path = .ok () ↔
    '\x00' ∉ path.toList ∧ path ≠ "" ∧ path.utf8ByteSize < pathLimit := by
  rw [checkPath]
  by_cases hnul : '\x00' ∈ path.toList
  · simp [hnul]
  · by_cases hempty : path = ""
    · simp [hempty]
    · by_cases hlong : pathLimit ≤ path.utf8ByteSize
      · simp [hnul, hempty, hlong, Nat.not_lt.2 hlong]
      · simp [hnul, hempty, hlong, Nat.lt_of_not_le hlong]

theorem checkPath_of_sublist (h : checkPath path = .ok ())
    (hs : parent.toList.Sublist path.toList) (hne : parent ≠ "") : checkPath parent = .ok () := by
  rw [checkPath_eq_ok_iff] at h ⊢
  obtain ⟨hnul, -, hlong⟩ := h
  have hle := Utf8.length_encode_le_of_sublist hs
  rw [Utf8.length_encode, Utf8.length_encode] at hle
  exact ⟨fun hm => hnul (hs.subset hm), hne, Nat.lt_of_le_of_lt hle hlong⟩

theorem isDirectory_root (d : Disk) : d.isDirectory "/" = true := by
  refine isDirectory_iff.2 ⟨[], target_eq_ok_iff.2 ⟨?_, ?_⟩, d.kind?_nil⟩
  · decide
  · have hpieces : Path.pieces "/" = [] := by decide
    have hstart : d.start "/" = [] := if_pos (by decide)
    rw [hpieces, hstart]
    rfl

/-- If a path leads somewhere, the path without its last part leads to a directory. -/
theorem isDirectory_of_parent? (ht : d.target path = .ok place)
    (hp : (Path.parent? path).filter (· ≠ "") = some parent) : d.isDirectory parent = true := by
  have hne : parent ≠ "" := by simpa using (Option.filter_eq_some_iff.1 hp).2
  obtain ⟨before, last, pre, hsteps, hpre, hroot | ⟨hbefore, htext⟩⟩ := Path.exists_of_parent? hp
  · rw [hroot]
    exact isDirectory_root d
  · have hsub : before.Sublist (Path.steps path) := hsteps ▸ List.sublist_append_left before [last]
    obtain ⟨hcheck, hfollow⟩ := target_eq_ok_iff.1 ht
    have hall := follow_filter hfollow
    rw [← Path.steps, hsteps] at hall
    obtain ⟨r, hr, hlast⟩ := follow_append.1 hall
    obtain ⟨s, henter, -⟩ := follow_cons_eq_ok_iff.1 hlast
    have hdir := (enter_eq_ok_iff.1 henter).1
    have hstart : d.start parent = d.start path := by
      rw [start, start, htext, Path.isAbsolute_text hpre hsub hbefore]
    refine isDirectory_iff.2 ⟨r, target_eq_ok_iff.2 ⟨?_, ?_⟩, hdir⟩
    · refine checkPath_of_sublist hcheck ?_ hne
      rw [htext]
      exact Path.text_sublist hpre hsub
    · rw [hstart, htext, Path.pieces_text hpre hsub]
      cases hpre with
      | root => exact hr
      | nothing => exact hr
      | here ha hd =>
        -- The dot at the beginning was passed on the way to the file as well.
        obtain ⟨rest, hrest⟩ := List.head?_eq_some_iff.1 hd
        rw [hrest] at hfollow
        obtain ⟨s, hs, -⟩ := follow_cons_eq_ok_iff.1 hfollow
        obtain ⟨hdot, ⟨-, rfl⟩ | ⟨hne, -⟩⟩ := enter_eq_ok_iff.1 hs
        · exact follow_cons_eq_ok_iff.2 ⟨_, hs, hr⟩
        · exact absurd rfl hne

/-- The last piece of a path that leads to a file is a name. -/
theorem WellFormed.endsInName (h : d.WellFormed) (ht : d.target path = .ok place)
    (hk : d.kind? place = some (.file id)) : endsInName path = true := by
  have hfollow := (target_eq_ok_iff.1 ht).2
  have hstart : d.kind? (d.start path) = some .directory := by
    rw [start]
    split
    · exact d.kind?_nil
    · exact h.here
  rw [Disk.endsInName]
  rcases List.eq_nil_or_concat (Path.pieces path) with hnil | ⟨before, last, hpieces⟩
  · rw [hnil] at hfollow
    cases hfollow
    rw [hk] at hstart
    cases hstart
  · rw [List.concat_eq_append] at hpieces
    rw [hpieces] at hfollow ⊢
    obtain ⟨r, -, hlast⟩ := follow_append.1 hfollow
    obtain ⟨s, henter, hs⟩ := follow_cons_eq_ok_iff.1 hlast
    cases hs
    obtain ⟨hdir, ⟨-, rfl⟩ | ⟨hdot, ⟨-, rfl⟩ | ⟨hup, -, -⟩⟩⟩ := enter_eq_ok_iff.1 henter
    · rw [hk] at hdir
      cases hdir
    · rw [h.tail hdir] at hk
      cases hk
    · rw [List.getLast?_concat]
      simp [hdot, hup]

/-- A file that can be read can be mapped. -/
theorem WellFormed.bound_of_openToRead (h : d.WellFormed)
    (ho : d.openToRead path = .ok (.file id)) : d.Bound path id := by
  obtain ⟨place, ht, hk, hsep⟩ := openToRead_file_iff.1 ho
  exact {
    parent := fun p hp => isDirectory_of_parent? ht hp
    target := ⟨place, ht, hk⟩
    isFile := ⟨hsep, h.endsInName ht hk⟩
    lt := h.file_lt hk }

end FileMesh.Disk
