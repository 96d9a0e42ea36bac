import FileMesh.Proofs.Backing
import FileMesh.Proofs.Disk.Site
import FileMesh.Relay
import Mathlib.Logic.Relation

/-!
# What is done with one entry

An entry has its file, or it waits for one under a name in the directory in which its store makes
files. Opening, writing, accepting a delivery and saving all change the disk in the same few ways:
the directory is made, the file is made, or the file at the place of the entry is changed.
-/

namespace FileMesh.Entry

open Disk (Touch)

variable {dir name path : String} {d d' d'' : Disk} {e e' e'' : Entry} {id : FileId} {q : Place}

/-- Where an entry has its file, in a store that makes files in `dir`: it has its file or waits for
one in the directory. An entry whose file could not be made keeps the path; making the directory has
been tried then, and changes nothing more. -/
inductive Sited (dir : String) (d : Disk) (e : Entry) : Prop
  | bound (id : FileId) (path : e.path = some e.backingPath) (bound : d.Bound e.backingPath id)
    (mapping : e.mapping = none ∨ e.mapping = some id)
  | waiting (name : String) (isName : Path.IsName name)
    (backingPath : e.backingPath = Path.join dir name)
    (path : e.path = none ∨ e.path = some e.backingPath ∧ d.Settled dir)
    (mapping : e.mapping = none)

/-- What is mapped is the file at the place of the entry. -/
theorem Sited.kind?_site (h : e.Sited dir d) (hm : e.mapping = some id) :
    d.kind? (d.site e.backingPath) = some (.file id) := by
  cases h with
  | bound id' _ hb hm' =>
    rw [hm] at hm'
    obtain rfl : id = id' := by simpa using hm'
    exact hb.kind?_site
  | waiting _ _ _ _ hm' =>
    rw [hm] at hm'
    cases hm'

/-- An entry stays sited when the disk changes at any place. -/
theorem Sited.touch (h : e.Sited dir d) (ht : Touch dir q d d') : e.Sited dir d' := by
  cases h with
  | bound id hp hb hm => exact .bound id hp (hb.mono ht.le) hm
  | waiting name hn hj hp hm =>
    exact .waiting name hn hj (hp.imp_right fun h => ⟨h.1, ht.settled h.2⟩) hm

theorem Sited.touches (h : e.Sited dir d) (ht : Relation.ReflTransGen (Touch dir q) d d') :
    e.Sited dir d' := by
  induction ht with
  | refl => exact h
  | tail _ ht ih => exact ih.touch ht

/-! ## Mapping -/

/-- Mapping the file of a name in the directory makes the directory first. -/
theorem mapFile_join (d : Disk) (hn : Path.IsName name) (size : Nat) :
    mapFile d (Path.join dir name) size = match d.makeDirectories (Path.plain dir) with
      | (.error cause, d) => (.error cause, d)
      | (.ok (), d) => openMapped d (Path.join dir name) size := by
  rw [mapFile]
  split
  · rename_i hnone
    rw [Path.parent?_join hn, Option.filter_eq_none_iff] at hnone
    have h0 : Path.plain dir = "" := by simpa using hnone
    have hmade : d.makeDirectories "" = (.ok (), d) := rfl
    rw [h0, hmade]
  · rename_i parent hsome
    rw [Path.parent?_join hn, Option.filter_eq_some_iff] at hsome
    obtain rfl := Option.some.inj hsome.1
    rfl

/-- The second step of mapping makes or changes the file at its place. -/
theorem touches_openMapped (hd : d.WellFormed) (hmake : d.Housed dir ∨ ∃ id, d.Bound path id)
    (size : Nat) :
    Relation.ReflTransGen (Touch dir (d.site path)) d (openMapped d path size).2 := by
  rw [openMapped]
  split
  · exact .refl
  · rename_i id d₁ ho
    obtain ⟨-, -, place, ht, hplace⟩ := Disk.openOrCreate_eq_ok_iff.1 ho
    have hsite := Disk.site_of_target ht
    have hopened : Relation.ReflTransGen (Touch dir (d.site path)) d d₁ ∧
        d₁.kind? (d.site path) = some (.file id) := by
      rcases hplace with ⟨hk, rfl⟩ | ⟨hk, rfl, rfl⟩
      · exact ⟨.refl, hsite ▸ hk⟩
      · rcases hmake with hh | ⟨id', hb⟩
        · rw [hsite]
          refine ⟨.single (.create hh hk (hd.tail_of_target ht)), ?_⟩
          rw [Disk.kind?_create d (Disk.ne_nil_of_kind?_eq_none hk), if_pos rfl]
        · rw [← hsite, hb.kind?_site] at hk
          cases hk
    rcases d₁.snd_mapSized id size with ⟨-, hsized⟩ | ⟨-, hsame⟩
    · simp only [hsized]
      exact hopened.1.tail (.change hopened.2 _)
    · simp only [hsame]
      exact hopened.1

/-! ## Using an entry -/

/-- What using an entry does: the entry stays what it is, and the disk changes at its place. -/
structure Uses (dir : String) (d : Disk) (e : Entry) (d' : Disk) (e' : Entry) : Prop where
  descriptor : e'.descriptor = e.descriptor
  origin : e'.origin = e.origin
  backingPath : e'.backingPath = e.backingPath
  touches : Relation.ReflTransGen (Touch dir (d.site e.backingPath)) d d'
  sited : e'.Sited dir d'

theorem le_of_touches (h : Relation.ReflTransGen (Touch dir q) d d') : d.Le d' := by
  induction h with
  | refl => exact .refl d
  | tail _ ht ih => exact ih.trans ht.le

theorem tidy_of_touches (hd : d.Tidy) (h : Relation.ReflTransGen (Touch dir q) d d') :
    d'.Tidy := by
  induction h with
  | refl => exact hd
  | tail _ ht ih => exact ht.tidy ih

theorem settled_of_touches (hs : d.Settled dir) (h : Relation.ReflTransGen (Touch dir q) d d') :
    d'.Settled dir := by
  induction h with
  | refl => exact hs
  | tail _ ht ih => exact ht.settled ih

theorem Uses.trans (h : Uses dir d e d' e') (h' : Uses dir d' e' d'' e'') :
    Uses dir d e d'' e'' where
  descriptor := h'.descriptor.trans h.descriptor
  origin := h'.origin.trans h.origin
  backingPath := h'.backingPath.trans h.backingPath
  touches := by
    have hrest := h'.touches
    rw [h.backingPath, (le_of_touches h.touches).site] at hrest
    exact h.touches.trans hrest
  sited := h'.sited

namespace Sited

theorem nothing (h : e.Sited dir d) : Uses dir d e d e := ⟨rfl, rfl, rfl, .refl, h⟩

theorem put (h : e.Sited dir d) (r : ChunkRange) (offset : Nat) (data : Bytes) :
    Uses dir d e (e.put d r offset data) e := by
  rw [Entry.put]
  split
  · rename_i id hm
    have ht : Touch dir (d.site e.backingPath) d _ := .change (h.kind?_site hm)
      ((d.file id).put (r.start.toNat + offset) (data.take (r.length.toNat - offset)))
    exact ⟨rfl, rfl, rfl, .single ht, h.touch ht⟩
  · exact h.nothing

theorem unmap (h : e.Sited dir d) : e.unmap.Sited dir d := by
  cases h with
  | bound id hp hb hm => exact .bound id hp hb (.inl rfl)
  | waiting name hn hj hp hm => exact .waiting name hn hj hp rfl

theorem save (h : e.Sited dir d) : Uses dir d e (e.save d).2.2 (e.save d).2.1 := by
  rw [Entry.save, writeOut]
  split
  · rename_i id hm
    have ht : Touch dir (d.site e.backingPath) d (d.writeOut id e.size) :=
      .change (h.kind?_site hm) _
    exact ⟨rfl, rfl, rfl, .single ht, (h.touch ht).unmap⟩
  · exact ⟨rfl, rfl, rfl, .refl, h.unmap⟩

/-- Mapping the file of an entry makes the directory at most and changes its place. After that,
making the directory changes nothing more. -/
theorem touches_mapFile (h : e.Sited dir d) (hd : d.WellFormed) :
    Relation.ReflTransGen (Touch dir (d.site e.backingPath)) d
        (mapFile d e.backingPath e.size).2 ∧
      ((∃ id, d.Bound e.backingPath id) ∨ (mapFile d e.backingPath e.size).2.Settled dir) := by
  cases h with
  | bound id hp hb =>
    rw [mapFile_eq_openMapped hb.parent]
    exact ⟨touches_openMapped hd (.inr ⟨id, hb⟩) e.size, .inl ⟨id, hb⟩⟩
  | waiting name hn hj =>
    have hprepare : Touch dir (d.site e.backingPath) d (d.makeDirectories (Path.plain dir)).2 :=
      .prepare
    have hsettled := d.settled_makeDirectories dir
    have hhoused : (d.makeDirectories (Path.plain dir)).1 = .ok () →
      (d.makeDirectories (Path.plain dir)).2.Housed dir := Disk.housed_makeDirectories
    obtain ⟨⟨made, d₁⟩, hmade⟩ : ∃ r, d.makeDirectories (Path.plain dir) = r := ⟨_, rfl⟩
    rw [hmade] at hprepare hsettled hhoused
    rw [hj] at hprepare ⊢
    rw [mapFile_join d hn, hmade]
    cases made with
    | error cause => exact ⟨.single hprepare, .inr hsettled⟩
    | ok _ =>
      have hrest : Relation.ReflTransGen (Touch dir (d₁.site (Path.join dir name))) d₁
          (openMapped d₁ (Path.join dir name) e.size).2 :=
        touches_openMapped (hprepare.wellFormed hd) (.inl (hhoused rfl)) e.size
      rw [hprepare.le.site] at hrest
      exact ⟨.head hprepare hrest, .inr (settled_of_touches hsettled hrest)⟩

/-- Opening the file of an entry leaves it sited: with its file, or after a failure as it was, with
the path. -/
theorem openFile (h : e.Sited dir d) (hd : d.WellFormed) :
    Uses dir d e (e.openFile d).2.2 (e.openFile d).2.1 := by
  cases hm : e.mapping with
  | some id =>
    have ho : e.openFile d = (.ok (), e, d) := by rw [Entry.openFile, hm]
    rw [ho]
    exact h.nothing
  | none =>
    obtain ⟨htouches, htried⟩ := h.touches_mapFile hd
    have hle := le_of_touches htouches
    rw [openFile_of_unmapped hm]
    obtain ⟨⟨result, d₁⟩, hmap⟩ : ∃ r, mapFile d e.backingPath e.size = r := ⟨_, rfl⟩
    rw [hmap] at htouches htried hle ⊢
    cases result with
    | ok id =>
      obtain ⟨-, hbound, -⟩ := mapFile_spec hd hmap
      exact ⟨rfl, rfl, rfl, htouches, .bound id rfl hbound (.inr rfl)⟩
    | error cause =>
      refine ⟨rfl, rfl, rfl, htouches, ?_⟩
      cases h with
      | bound id _ hb _ => exact .bound id rfl (hb.mono hle) (.inl hm)
      | waiting name hn hj _ _ =>
        rcases htried with ⟨id, hb⟩ | hs
        · exact .bound id rfl (hb.mono hle) (.inl hm)
        · exact .waiting name hn hj (.inr ⟨rfl, hs⟩) hm

theorem openChunk (h : e.Sited dir d) (hd : d.WellFormed) (index : Nat) :
    Uses dir d e (e.openChunk d index).2.2 (e.openChunk d index).2.1 := by
  rw [Entry.openChunk]
  split
  · exact h.nothing
  · exact h.openFile hd

theorem writeChunk (h : e.Sited dir d) (hd : d.WellFormed) (index offset : Nat) (data : Bytes) :
    Uses dir d e (e.writeChunk d index offset data).2.2 (e.writeChunk d index offset data).2.1 := by
  have hopen := h.openChunk hd index
  rw [Entry.writeChunk]
  obtain ⟨⟨result, e₁, d₁⟩, ho⟩ : ∃ r, e.openChunk d index = r := ⟨_, rfl⟩
  rw [ho] at hopen ⊢
  cases result with
  | error cause => exact hopen
  | ok range => exact hopen.trans (hopen.sited.put range offset data)

theorem accept (h : e.Sited dir d) (hd : d.WellFormed) (chunk : ChunkData) :
    Uses dir d e (Relay.accept d e chunk).2.2 (Relay.accept d e chunk).2.1 := by
  have hopen := h.openChunk hd chunk.chunkIndex.toNat
  rw [Relay.accept]
  split
  · exact h.nothing
  · obtain ⟨⟨result, e₁, d₁⟩, ho⟩ : ∃ r, e.openChunk d chunk.chunkIndex.toNat = r := ⟨_, rfl⟩
    rw [ho] at hopen ⊢
    cases result with
    | error cause => exact hopen
    | ok range =>
      simp only
      split
      · exact hopen
      · exact hopen.trans (hopen.sited.put range 0 chunk.data)

end Sited

/-- What can be done with an entry: a chunk is opened, opened and written, or delivered, or the file
is saved. -/
inductive Use where
  | openChunk (index : Nat)
  | writeChunk (index offset : Nat) (data : Bytes)
  | accept (chunk : ChunkData)
  | save

/-- The entry and the disk afterwards. -/
def use (d : Disk) (e : Entry) : Use → Entry × Disk
  | .openChunk index => (e.openChunk d index).2
  | .writeChunk index offset data => (e.writeChunk d index offset data).2
  | .accept chunk => (Relay.accept d e chunk).2
  | .save => (e.save d).2

/-- Whatever is done with an entry, it stays what it is, and the disk changes at its place. -/
theorem Sited.uses_of_wellFormed (h : e.Sited dir d) (hd : d.WellFormed) (u : Use) :
    Uses dir d e (e.use d u).2 (e.use d u).1 := by
  cases u with
  | openChunk index => exact h.openChunk hd index
  | writeChunk index offset data => exact h.writeChunk hd index offset data
  | accept chunk => exact h.accept hd chunk
  | save => exact h.save

theorem Sited.uses (h : e.Sited dir d) (hd : d.Tidy) (u : Use) :
    Uses dir d e (e.use d u).2 (e.use d u).1 :=
  h.uses_of_wellFormed hd.toWellFormed u

end FileMesh.Entry
