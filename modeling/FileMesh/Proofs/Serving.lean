import FileMesh.Proofs.Download
import FileMesh.Proofs.Opening
import FileMesh.Proofs.Sharing

/-!
# What answering a request does to files

A chunk is checked where its file is read and then read where the file is mapped. The first request
that is answered from a file opens it to map it, and that gives the file the declared size, also if
it cannot be mapped in the end. Nothing else on disk changes: no file is made, and a file that has
the declared size is left alone.
-/

namespace FileMesh

namespace Disk

variable {d : Disk} {id : FileId}

/-- The same tree, with the same bytes in every file. -/
structure SameFiles (d d' : Disk) : Prop where
  kind? : ∀ place, d'.kind? place = d.kind? place
  content : ∀ id, d'.content id = d.content id

theorem SameFiles.refl (d : Disk) : d.SameFiles d := ⟨fun _ => rfl, fun _ => rfl⟩

theorem SameFiles.sameRead {d' : Disk} (h : d.SameFiles d') (hhere : d'.here = d.here)
    (path : String) : d.SameRead d' path where
  openToRead := by
    rw [openToRead, openToRead, resolve, resolve, target_congr h.kind? hhere]
    simp only [h.kind?]
  content id _ := h.content id

/-- Giving a file the length it has changes nothing, and no other length does so. -/
theorem sameFiles_setLength_iff (h : id < d.contents.length) (n : Nat) :
    d.SameFiles (d.setFile id ((d.file id).setLength n)) ↔ (d.content id).length = n := by
  constructor
  · intro hsame
    rw [← hsame.content id, content_setFile_setLength h, Bytes.length_resize]
  · rintro rfl
    refine ⟨fun _ => rfl, fun j => ?_⟩
    by_cases hj : id = j
    · subst hj
      rw [content_setFile_setLength h, Bytes.resize_length]
    · exact content_setFile_of_ne hj _

/-- Mapping a file changes nothing if it has the size or cannot have it, and only then. -/
theorem sameFiles_mapSized_iff (h : id < d.contents.length) (n : Nat) :
    d.SameFiles (d.mapSized id n).2 ↔ (d.Sizes n → (d.content id).length = n) := by
  rcases d.snd_mapSized id n with ⟨hs, hsized⟩ | ⟨hs, hsame⟩
  · rw [hsized, sameFiles_setLength_iff h]
    exact ⟨fun hlen _ => hlen, fun hlen => hlen hs⟩
  · rw [hsame]
    exact iff_of_true (.refl d) fun h => absurd h hs

end Disk

namespace Relay

variable {network : Network} {disk disk' : Disk} {s s' : Store} {peers peers' : PeerSet}
  {r : ChunkRequest} {source : PeerId} {e : Entry} {id : FileId} {outcome : RequestOutcome}

/-- The request is answered for the entry `e`, which has nothing mapped, with the file `id` at its
path, and a file can have the declared size, whether or not it can be mapped. -/
structure OpensFor (s : Store) (disk : Disk) (r : ChunkRequest) (e : Entry) (id : FileId) :
    Prop where
  holds : holds s disk r = some e
  mapping : e.mapping = none
  file : ∃ path, e.path = some path ∧ disk.openToRead path = .ok (.file id)
  sizes : disk.Sizes e.size

theorem OpensFor.lt (hd : disk.WellFormed) (h : OpensFor s disk r e id) :
    id < disk.contents.length := by
  obtain ⟨path, -, ho⟩ := h.file
  exact (hd.bound_of_openToRead ho).lt

theorem OpensFor.eq {e' : Entry} {id' : FileId} (h : OpensFor s disk r e id)
    (h' : OpensFor s disk r e' id') : e' = e ∧ id' = id := by
  obtain rfl := Option.some.inj (h'.holds.symm.trans h.holds)
  obtain ⟨path, hp, ho⟩ := h.file
  obtain ⟨path', hp', ho'⟩ := h'.file
  obtain rfl := Option.some.inj (hp'.symm.trans hp)
  rw [ho] at ho'
  cases ho'
  exact ⟨rfl, rfl⟩

/-! ## The disk after a request -/

/-- Answering does to the disk what opening the file does. -/
theorem answer_disk {i : ChunkIndex} (hi : r.chunkIndex.toNat = i.val) :
    (answer network disk e r).2.2 = (e.openFile disk).2.2 := by
  have hread : (e.readChunk disk r.chunkIndex.toNat).2.2 = (e.openFile disk).2.2 := by
    simp only [Entry.readChunk, Entry.openChunk, Descriptor.chunkRange?_of_eq hi]
  rw [answer_snd, hread]

/-- What the file of an entry that holds a chunk becomes when it is opened. -/
theorem openFile_of_holds (hd : disk.WellFormed) (h : holds s disk r = some e) :
    (∃ id, OpensFor s disk r e id ∧
      (e.openFile disk).2.2 = disk.setFile id ((disk.file id).setLength e.size)) ∨
    (∀ id, ¬ OpensFor s disk r e id) ∧ (e.openFile disk).2.2 = disk := by
  obtain ⟨-, hv⟩ := Option.filter_eq_some_iff.1 h
  cases hm : e.mapping with
  | some id =>
    refine .inr ⟨fun id' h' => ?_, ?_⟩
    · rw [h'.mapping] at hm
      cases hm
    · rw [Entry.openFile, hm]
  | none =>
    obtain ⟨path, kind, hp, ho⟩ := Entry.exists_openToRead_of_verifyChunk
      (i := ⟨_, Entry.lt_of_verifyChunk hv⟩) hm hv
    cases kind with
    | directory =>
      obtain ⟨cause, hopen⟩ := Entry.openFile_of_directory hm hp ho
      refine .inr ⟨fun id h' => ?_, by rw [hopen]⟩
      obtain ⟨path', hp', ho'⟩ := h'.file
      obtain rfl := Option.some.inj (hp'.symm.trans hp)
      rw [ho] at ho'
      cases ho'
    | file id =>
      rw [Entry.openFile_disk_of_file hd hm hp ho]
      rcases disk.snd_mapSized id e.size with ⟨hsizes, hsized⟩ | ⟨hnot, hsame⟩
      · exact .inl ⟨id, ⟨h, hm, ⟨path, hp, ho⟩, hsizes⟩, hsized⟩
      · exact .inr ⟨fun id h' => hnot h'.sizes, hsame⟩

/-- After a request the file that was opened for it has the declared size, and otherwise the disk is
as it was. -/
theorem request_disk (hd : disk.WellFormed) (network : Network) (s : Store) (peers : PeerSet)
    (r : ChunkRequest) (source : PeerId) :
    (∃ e id, OpensFor s disk r e id ∧ (request network disk s peers r source).2.1 =
      disk.setFile id ((disk.file id).setLength e.size)) ∨
    (∀ e id, ¬ OpensFor s disk r e id) ∧ (request network disk s peers r source).2.1 = disk := by
  cases hh : holds s disk r with
  | none =>
    refine .inr ⟨fun e id h => ?_, ?_⟩
    · rw [h.holds] at hh
      cases hh
    · rw [request_of_none hh]
  | some e =>
    have hlt := Entry.lt_of_verifyChunk (Option.filter_eq_some_iff.1 hh).2
    have hdisk : (request network disk s peers r source).2.1 = (e.openFile disk).2.2 := by
      rw [request_of_some hh]
      exact answer_disk (i := ⟨_, hlt⟩) rfl
    rw [hdisk]
    rcases openFile_of_holds hd hh with ⟨id, h, hopen⟩ | ⟨hno, hopen⟩
    · exact .inl ⟨e, id, h, hopen⟩
    · refine .inr ⟨fun e' id h => ?_, hopen⟩
      obtain rfl := Option.some.inj (h.holds.symm.trans hh)
      exact hno id h

/-- Handling a request makes and removes nothing, whatever comes of it. A file changes only if it is
opened for the request, and then only to the declared size. So handling a request leaves every file
alone just when the file that is opened for it, if there is one, has the declared size. -/
theorem request_sameFiles_iff (hd : disk.WellFormed)
    (h : request network disk s peers r source = (outcome, disk', s', peers')) :
    (∀ place, disk'.kind? place = disk.kind? place) ∧
    (∀ id, disk'.content id = disk.content id ∨
      ∃ e, OpensFor s disk r e id ∧ disk'.content id = (disk.content id).resize e.size) ∧
    (disk.SameFiles disk' ↔
      ∀ e id, OpensFor s disk r e id → (disk.content id).length = e.size) := by
  have hdisk := request_disk hd network s peers r source
  rw [h] at hdisk
  rcases hdisk with ⟨e, id, hopens, rfl⟩ | ⟨hno, hsame⟩
  · have hlt := hopens.lt hd
    refine ⟨fun _ => rfl, fun j => ?_, ?_⟩
    · by_cases hj : id = j
      · subst hj
        exact .inr ⟨e, hopens, Disk.content_setFile_setLength hlt e.size⟩
      · exact .inl (Disk.content_setFile_of_ne hj _)
    · rw [Disk.sameFiles_setLength_iff hlt]
      constructor
      · intro hlen e' id' hopens'
        obtain ⟨rfl, rfl⟩ := hopens.eq hopens'
        exact hlen
      · exact fun hall => hall e id hopens
  · obtain rfl : disk' = disk := hsame
    exact ⟨fun _ => rfl, fun _ => .inl rfl,
      iff_of_true (.refl disk') fun e id hopens => absurd hopens (hno e id)⟩

/-! ## A file that was shared -/

/-- The first request for a chunk that matches opens the file that was shared, whatever its length
is by then. -/
theorem opensFor_ofFile {d : Descriptor} {path : String} {i : ChunkIndex}
    (hl : s.lookup r.hash = some (.ofFile d path)) (hi : r.chunkIndex.toNat = i.val)
    (hsize : disk.Sizes d.size.toNat) (ho : disk.openToRead path = .ok (.file id))
    (hlen : (d.range i).stop.toNat ≤ (disk.content id).length)
    (hm : d.Matches (disk.content id) i) : OpensFor s disk r (.ofFile d path) id where
  holds := by
    have hlimit : d.size.toNat ≤ Disk.largestOffset := hsize.le
    have hrange := d.start_add_length i
    have hle := d.range_le i
    have hchunk : Entry.hashChunk disk (.file id) d i = .ok (d.chunkHashes.get i) :=
      Entry.hashChunk_eq_ok_iff.2 ⟨by omega, by omega, hm.symm⟩
    rw [Relay.holds, hl, Option.filter_some, if_pos]
    rw [hi, Entry.verifyChunk_iff_of_path rfl rfl]
    exact ⟨.file id, ho, hchunk⟩
  mapping := rfl
  file := ⟨path, rfl, ho⟩
  sizes := hsize

/-- A request for the first chunk of 512 zeros. -/
def zerosRequest : ChunkRequest := ⟨.ofContent (Bytes.zeros 512), 0, ⟨⟨127, 0, 0, 1⟩, 9⟩, 5⟩

/-- A file of 512 zeros is shared, and later cut to 448. -/
theorem exists_shared_zeros : ∃ disk s disk', Disk.empty.write "f" (Bytes.zeros 512) = .ok disk ∧
    (Store.empty "").share disk "f" "f" = .ok (.ofContent "f" (Bytes.zeros 512), s) ∧
    disk.write "f" (Bytes.zeros 448) = .ok disk' ∧
    disk.content 0 = Bytes.zeros 512 ∧ disk'.content 0 = Bytes.zeros 448 ∧
    OpensFor s disk zerosRequest (.ofFile (.ofContent "f" (Bytes.zeros 512)) "f") 0 ∧
    OpensFor s disk' zerosRequest (.ofFile (.ofContent "f" (Bytes.zeros 512)) "f") 0 := by
  have hwrite : ∃ disk disk', Disk.empty.write "f" (Bytes.zeros 512) = .ok disk ∧
      disk.write "f" (Bytes.zeros 448) = .ok disk' ∧
      disk.openToRead "f" = .ok (.file 0) ∧ disk'.openToRead "f" = .ok (.file 0) ∧
      disk.content 0 = Bytes.zeros 512 ∧ disk'.content 0 = Bytes.zeros 448 ∧
      disk.Sizes 512 ∧ disk'.Sizes 512 :=
    ⟨_, _, rfl, rfl, rfl, rfl, by decide +kernel, by decide +kernel, ⟨by decide, rfl⟩,
      ⟨by decide, rfl⟩⟩
  obtain ⟨disk, disk', hw, hw', ho, ho', hc, hc', hsizes, hsizes'⟩ := hwrite
  have hs : (Descriptor.ofContent "f" (Bytes.zeros 512)).size = 512 := by decide +kernel
  have hz : ContentHash.ofContent (Bytes.zeros 512) ≠ .zero := by
    rw [ofContent_zeros]
    decide
  have hstop : ((Descriptor.ofContent "f" (Bytes.zeros 512)).range 0).stop.toNat = 64 := by
    rw [Descriptor.range, hs]
    decide
  obtain ⟨s, hshare⟩ : ∃ s, (Store.empty "").share disk "f" "f" =
      .ok (.ofContent "f" (Bytes.zeros 512), s) :=
    (Store.valid_empty "").exists_share (Disk.read_eq_ok_iff.2 ⟨0, ho, hc.symm⟩)
      (by rw [Bytes.length_zeros]; decide) (by rw [Bytes.length_zeros]; decide) (by decide) hz
      (Store.lookup_empty _ _)
  have hlookup := (Store.valid_empty "").lookup_insert ((Store.share_eq_ok_iff ho).1 hshare).2.2
  have hmatches := Descriptor.matches_ofContent "f" (Bytes.zeros 512) 0
  refine ⟨disk, s, disk', hw, hshare, hw', hc, hc', ?_, ?_⟩
  · refine opensFor_ofFile (i := 0) hlookup rfl (by rwa [hs]) ho ?_ ?_
    · rw [hstop, hc, Bytes.length_zeros]
      decide
    · rw [hc]
      exact hmatches
  · refine opensFor_ofFile (i := 0) hlookup rfl (by rwa [hs]) ho' ?_ ?_
    · rw [hstop, hc', Bytes.length_zeros]
      decide
    · have hsame : (Descriptor.ofContent "f" (Bytes.zeros 512)).chunkOf (Bytes.zeros 448) 0 =
          (Descriptor.ofContent "f" (Bytes.zeros 512)).chunkOf (Bytes.zeros 512) 0 := by
        rw [chunkOf_zeros hs, Descriptor.chunkOf, Descriptor.range, hs]
        decide
      rw [hc', Descriptor.Matches, hsame]
      exact hmatches

/-- A file that was shared and not touched since is left alone. -/
theorem request_sameFiles_shared : ∃ disk s disk' outcome s' peers',
    Disk.empty.write "f" (Bytes.zeros 512) = .ok disk ∧
    (Store.empty "").share disk "f" "f" = .ok (.ofContent "f" (Bytes.zeros 512), s) ∧
    disk.WellFormed ∧
    request .isolated disk s .empty zerosRequest 0 = (outcome, disk', s', peers') ∧
    disk.SameFiles disk' := by
  obtain ⟨disk, s, -, hw, hshare, -, hc, -, hopens, -⟩ := exists_shared_zeros
  have hwf := Disk.wellFormed_empty.write hw
  obtain ⟨⟨outcome, disk', s', peers'⟩, hrequest⟩ :
    ∃ x, request .isolated disk s .empty zerosRequest 0 = x := ⟨_, rfl⟩
  refine ⟨disk, s, disk', outcome, s', peers', hw, hshare, hwf, hrequest,
    (request_sameFiles_iff hwf hrequest).2.2.2 fun e id hopens' => ?_⟩
  obtain ⟨rfl, rfl⟩ := hopens.eq hopens'
  rw [hc, Bytes.length_zeros]
  decide +kernel

/-- A file that was shared and cut later has its old length again after a request, filled up with
zeros. -/
theorem request_extends_shared : ∃ disk s disk' disk'' outcome s' peers',
    Disk.empty.write "f" (Bytes.zeros 512) = .ok disk ∧
    (Store.empty "").share disk "f" "f" = .ok (.ofContent "f" (Bytes.zeros 512), s) ∧
    disk.write "f" (Bytes.zeros 448) = .ok disk' ∧
    request .isolated disk' s .empty zerosRequest 0 = (outcome, disk'', s', peers') ∧
    (disk'.content 0).length = 448 ∧ (disk''.content 0).length = 512 ∧
    ¬ disk'.SameFiles disk'' := by
  obtain ⟨disk, s, disk', hw, hshare, hw', -, hc', -, hopens⟩ := exists_shared_zeros
  have hwf := (Disk.wellFormed_empty.write hw).write hw'
  obtain ⟨⟨outcome, disk'', s', peers'⟩, hrequest⟩ :
    ∃ x, request .isolated disk' s .empty zerosRequest 0 = x := ⟨_, rfl⟩
  have hlen : (disk'.content 0).length = 448 := by
    rw [hc', Bytes.length_zeros]
  have hlen' : (disk''.content 0).length = 512 := by
    have hdisk := request_disk hwf .isolated s .empty zerosRequest 0
    rw [hrequest] at hdisk
    rcases hdisk with ⟨e, id, hopens', hset⟩ | ⟨hno, -⟩
    · obtain ⟨rfl, rfl⟩ := hopens.eq hopens'
      obtain rfl : disk'' = _ := hset
      rw [Disk.content_setFile_setLength (hopens.lt hwf), Bytes.length_resize]
      decide +kernel
    · exact absurd hopens (hno _ _)
  refine ⟨disk, s, disk', disk'', outcome, s', peers', hw, hshare, hw', hrequest, hlen, hlen',
    fun hsame => ?_⟩
  rw [hsame.content 0, hlen] at hlen'
  exact absurd hlen' (by decide)

end Relay

end FileMesh
