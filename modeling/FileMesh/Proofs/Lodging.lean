import FileMesh.Proofs.Sharing
import FileMesh.Proofs.Sited

/-!
# Where the entries of a store have their files

Whatever is added to a store and done with its entries, each of them has its file or waits for it,
and a peer's entry does so under the last name in the declared one, in the directory in which the
store makes files.
-/

namespace FileMesh

theorem Path.isName_fileName (d : Descriptor) : Path.IsName (Store.fileName d) := by
  rw [Store.fileName]
  cases hname : Path.fileName? d.name with
  | none => exact Path.isName_hex d.hash
  | some name => exact Path.isName_fileName? hname

theorem Entry.wellFormed_of_touches {dir : String} {q : Place} {d d' : Disk} (hd : d.WellFormed)
    (h : Relation.ReflTransGen (Disk.Touch dir q) d d') : d'.WellFormed := by
  induction h with
  | refl => exact hd
  | tail _ ht ih => exact ht.wellFormed ih

namespace Store

open Entry (Sited Use)

variable {dir path name : String} {s t : Store} {disk : Disk} {d : Descriptor} {e x : Entry}
  {id : FileId} {hash k : ContentHash}

/-- Every entry has its file or waits for it, and a peer's entry has the last name in the declared
one. -/
structure Lodged (dir : String) (s : Store) (disk : Disk) : Prop where
  valid : s.Valid
  downloadDir : s.downloadDir = dir
  wellFormed : disk.WellFormed
  sited : ∀ {hash e}, s.lookup hash = some e → e.Sited dir disk
  named : ∀ {hash e}, s.lookup hash = some e → e.origin = .network →
    e.backingPath = Path.join dir (fileName e.descriptor)

/-- An entry that is there after one was replaced is the new one or was there before. -/
theorem Valid.lookup_replace_cases (h : s.Valid)
    (hx : (s.modify hash fun _ => e).lookup k = some x) :
    x = e ∨ s.lookup k = some x := by
  rw [h.lookup_modify] at hx
  split at hx
  · obtain ⟨_, -, hx⟩ := Option.map_eq_some_iff.1 hx
    exact .inl hx.symm
  · exact .inr hx

namespace Lodged

theorem start (hd : disk.WellFormed) (dir : String) : Lodged dir (.empty dir) disk where
  valid := valid_empty dir
  downloadDir := rfl
  wellFormed := hd
  sited hl := by
    rw [lookup_empty] at hl
    cases hl
  named hl := by
    rw [lookup_empty] at hl
    cases hl

/-- Adding an entry that has its file or waits for it. -/
theorem insert (h : Lodged dir s disk) (hi : s.insert e = .ok t) (hsited : e.Sited dir disk)
    (hnamed : e.origin = .network → e.backingPath = Path.join dir (fileName e.descriptor)) :
    Lodged dir t disk where
  valid := h.valid.insert hi
  downloadDir := by
    obtain ⟨-, table, -, rfl⟩ := insert_eq_ok_iff.1 hi
    exact h.downloadDir
  wellFormed := h.wellFormed
  sited hl := by
    rcases (h.valid.lookup_insert_iff hi).1 hl with ⟨-, rfl⟩ | hl
    · exact hsited
    · exact h.sited hl
  named hl := by
    rcases (h.valid.lookup_insert_iff hi).1 hl with ⟨-, rfl⟩ | hl
    · exact hnamed
    · exact h.named hl

theorem add (h : Lodged dir s disk) (ha : s.add d = .ok t) : Lodged dir t disk := by
  have hpath : Path.join s.downloadDir (fileName d) = Path.join dir (fileName d) := by
    rw [h.downloadDir]
  exact h.insert ha (.waiting _ (Path.isName_fileName d) hpath (.inl rfl) rfl) fun _ => hpath

theorem addFile (h : Lodged dir s disk) (ho : disk.openToRead path = .ok (.file id))
    (ha : s.addFile d path = .ok t) : Lodged dir t disk :=
  h.insert ha (.bound id rfl (h.wellFormed.bound_of_openToRead ho) (.inl rfl))
    fun hnetwork => by cases hnetwork

theorem share (h : Lodged dir s disk) (hs : s.share disk path name = .ok (d, t)) :
    Lodged dir t disk := by
  obtain ⟨id, ho, ha⟩ := exists_openToRead_of_share hs
  exact h.addFile ho ha

/-- Using an entry. The others stay where they are. -/
theorem use (h : Lodged dir s disk) (hl : s.lookup hash = some e) (u : Use) :
    Lodged dir (s.modify hash fun _ => (e.use disk u).1) (e.use disk u).2 := by
  have huses := (h.sited hl).uses_of_wellFormed h.wellFormed u
  refine ⟨h.valid.modify _ _, h.downloadDir,
    Entry.wellFormed_of_touches h.wellFormed huses.touches, fun hx => ?_, fun hx => ?_⟩
  · rcases h.valid.lookup_replace_cases hx with rfl | hx
    · exact huses.sited
    · exact (h.sited hx).touches huses.touches
  · rcases h.valid.lookup_replace_cases hx with rfl | hx
    · rw [huses.origin, huses.backingPath, huses.descriptor]
      exact h.named hl
    · exact h.named hx

end Lodged

end Store

end FileMesh
