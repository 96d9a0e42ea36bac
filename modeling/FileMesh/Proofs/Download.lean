import FileMesh.Proofs.Delivery

/-!
# Downloads

An entry that was learned from a peer has no file at first; the first chunk that names a place in it
opens one. From then on a run of deliveries fills it. What a complete check says of the file is what
the peer declared: the hash of the whole or the hash of every chunk, and nothing makes the one
follow from the other. With the descriptor of a content, and if no two chunks in play have the same
hash, it is the content.
-/

namespace FileMesh

/-- No two of these contents have the same hash. -/
def ContentHash.CollisionFree (contents : List Bytes) : Prop :=
  ∀ a ∈ contents, ∀ b ∈ contents, ofContent a = ofContent b → a = b

namespace Relay

variable {disk disk' : Disk} {d : Descriptor} {path : String} {id : FileId} {i : ChunkIndex}

/-- The chunks in play: those of the content, those of the file as it was opened first, and those
that arrive. -/
def occurring (d : Descriptor) (c prior : Bytes) (chunks : List ChunkData) : List Bytes :=
  ChunkIndex.all.map (d.chunkOf c) ++ ChunkIndex.all.map (d.chunkOf prior) ++
    chunks.map ChunkData.data

/-! ## Entries of peers -/

theorem verifyChunk_ofPeer (disk : Disk) (d : Descriptor) (path : String) (index : Nat) :
    (Entry.ofPeer d path).verifyChunk disk index = false := by
  rw [Entry.verifyChunk]
  split
  · simp [Entry.currentHash?, Entry.ofPeer]
  · rfl

theorem has_verify_ofPeer (disk : Disk) (d : Descriptor) (path : String) (i : ChunkIndex) :
    ((Entry.ofPeer d path).verify disk).has i = false := by
  exact VerifiedChunks.has_none i

theorem run_append (events events' : List Event) (s : Entry × Disk) :
    run (events ++ events') s = run events' (run events s) := List.foldl_append

/-- Nothing happens to an entry of a peer before a chunk arrives that names a place in it. From then
on it has its file. -/
theorem run_ofPeer (ho : (Entry.ofPeer d path).Opens disk disk' id) (events : List Event) :
    run events (.ofPeer d path, disk) = (.ofPeer d path, disk) ∨
      Fills d path id (disk'.content id) (arrivals events) (run events (.ofPeer d path, disk)) := by
  induction events with
  | nil => exact .inl rfl
  | cons event events ih =>
    cases event with
    | save => exact ih
    | verify => exact ih
    | accept chunk =>
      show run events (accept disk (.ofPeer d path) chunk).2 = _ ∨
        Fills d path id _ _ (run events (accept disk (.ofPeer d path) chunk).2)
      rcases accept_eq_or_missing disk (.ofPeer d path) chunk with hsame | ⟨i, hi, hv⟩
      · rw [hsame]
        rcases ih with hfresh | hfills
        · exact .inl hfresh
        · refine .inr ⟨hfills.backed, hfills.descriptor, hfills.backingPath, ?_⟩
          intro i
          refine (hfills.chunkOf i).imp_right ?_
          rintro ⟨chunk', hm, heq⟩
          rw [arrivals_cons]
          exact ⟨chunk', List.mem_append_right _ hm, heq⟩
      · -- Even a chunk of the wrong size opens the file; the rest of the run has a file to keep.
        right
        obtain ⟨disk'', haccept, hbacked, hother, hself, -⟩ := accept_effect hi hv ho
        rw [haccept]
        have hfills : Fills d path id (disk'.content id) [chunk]
            ((Entry.ofPeer d path).opened id, disk'') := by
          refine ⟨hbacked, rfl, rfl, ?_⟩
          intro j
          by_cases hij : i = j
          · subst hij
            exact hself.imp_right fun heq => ⟨chunk, List.mem_singleton_self _, heq⟩
          · exact .inl (hother j hij)
        rw [arrivals_cons]
        exact hfills.trans (keeps_run hbacked events)

/-- Where a chunk is verified there is a file. -/
theorem fills_of_verifyChunk (ho : (Entry.ofPeer d path).Opens disk disk' id) {events : List Event}
    (hv : (run events (.ofPeer d path, disk)).1.verifyChunk
      (run events (.ofPeer d path, disk)).2 i = true) :
    Fills d path id (disk'.content id) (arrivals events) (run events (.ofPeer d path, disk)) := by
  refine (run_ofPeer ho events).resolve_left ?_
  intro hfresh
  rw [hfresh, verifyChunk_ofPeer] at hv
  cases hv

theorem exists_opens_run (ho : (Entry.ofPeer d path).Opens disk disk' id) (events : List Event) :
    (run events (.ofPeer d path, disk)).1.descriptor = d ∧
      ∃ disk₁, (run events (.ofPeer d path, disk)).1.Opens
        (run events (.ofPeer d path, disk)).2 disk₁ id := by
  rcases run_ofPeer ho events with hfresh | hfills
  · rw [hfresh]
    exact ⟨rfl, disk', ho⟩
  · obtain ⟨disk₁, ho₁, -⟩ := hfills.backed.opens
    exact ⟨hfills.descriptor, disk₁, ho₁⟩

/-- A chunk that arrived as it was declared is verified at the end, whatever else arrived. -/
theorem verifyChunk_run (ho : (Entry.ofPeer d path).Opens disk disk' id) {c : Bytes}
    (hlen : c.length = d.size.toNat) (hm : d.Matches c i) {events : List Event} {chunk : ChunkData}
    (hmem : chunk ∈ arrivals events) (hc : d.Carries c i chunk) :
    (run events (.ofPeer d path, disk)).1.verifyChunk (run events (.ofPeer d path, disk)).2 i =
      true := by
  obtain ⟨event, hevent, heq⟩ := List.mem_filterMap.1 hmem
  obtain rfl : event = .accept chunk := by
    cases event <;> simp_all
  obtain ⟨before, after, rfl⟩ := List.append_of_mem hevent
  obtain ⟨hd, disk₁, ho₁⟩ := exists_opens_run ho before
  have hstored := (verifyChunk_accept ho₁ (by rwa [hd]) (by rwa [hd]) (by rwa [hd])).2
  have hsplit : run (before ++ [.accept chunk]) (.ofPeer d path, disk) =
      (accept (run before (.ofPeer d path, disk)).2
        (run before (.ofPeer d path, disk)).1 chunk).2 :=
    run_append before [.accept chunk] _
  rw [List.append_cons, run_append]
  rw [← hsplit] at hstored
  have hbacked := (fills_of_verifyChunk ho hstored).backed
  exact (keeps_run hbacked after).verifyChunk hbacked hstored

theorem mem_occurring_of_fills {c prior : Bytes} {chunks : List ChunkData} {s : Entry × Disk}
    (h : Fills d path id prior chunks s) (i : ChunkIndex) :
    d.chunkOf (s.2.content id) i ∈ occurring d c prior chunks := by
  rw [occurring, List.mem_append, List.mem_append]
  rcases h.chunkOf i with heq | ⟨chunk, hm, heq⟩
  · rw [heq]
    exact .inl (.inr (List.mem_map_of_mem (VerifiedChunks.mem_chunkIndex_all i)))
  · rw [heq]
    exact .inr (List.mem_map_of_mem hm)

theorem mem_occurring (d : Descriptor) (c prior : Bytes) (chunks : List ChunkData)
    (i : ChunkIndex) : d.chunkOf c i ∈ occurring d c prior chunks :=
  List.mem_append_left _ (List.mem_append_left _
    (List.mem_map_of_mem (VerifiedChunks.mem_chunkIndex_all i)))

/-- If no two chunks in play have the same hash, a file whose chunks all match is the content. -/
theorem content_eq_of_matches {c prior : Bytes} {chunks : List ChunkData} {s : Entry × Disk}
    (h : Fills d path id prior chunks s) (hlen : c.length = d.size.toNat) (hc : ∀ i, d.Matches c i)
    (hfree : ContentHash.CollisionFree (occurring d c prior chunks))
    (hm : ∀ i, d.Matches (s.2.content id) i) : s.2.content id = c := by
  have hlen' := h.backed.length_content
  rw [h.descriptor] at hlen'
  refine d.eq_of_chunkOf_eq hlen' hlen ?_
  intro i
  exact hfree _ (mem_occurring_of_fills h i) _ (mem_occurring d c prior chunks i)
    ((hm i).trans (hc i).symm)

/-- Once every chunk has arrived as it was declared, the file is complete, whatever else arrived. If
no two chunks in play have the same hash, it has the content then. -/
theorem complete_run (ho : (Entry.ofPeer d path).Opens disk disk' id) {c : Bytes}
    (hlen : c.length = d.size.toNat) (hm : ∀ i, d.Matches c i) {events : List Event}
    {s : Entry × Disk} (hs : run events (.ofPeer d path, disk) = s)
    (hall : ∀ i, ∃ chunk ∈ arrivals events, d.Carries c i chunk) :
    Fills d path id (disk'.content id) (arrivals events) s ∧ s.1.verify s.2 = .all ∧
      (ContentHash.CollisionFree (occurring d c (disk'.content id) (arrivals events)) →
        s.2.content id = c) := by
  subst hs
  have hverified (i : ChunkIndex) :
      (run events (.ofPeer d path, disk)).1.verifyChunk (run events (.ofPeer d path, disk)).2 i =
        true := by
    obtain ⟨chunk, hmem, hcarries⟩ := hall i
    exact verifyChunk_run ho hlen (hm i) hmem hcarries
  have hfills := fills_of_verifyChunk ho (hverified 0)
  have hcomplete := (Entry.isComplete_verify _ _).2 (.inr hverified)
  refine ⟨hfills, eq_of_beq hcomplete, ?_⟩
  intro hfree
  refine content_eq_of_matches hfills hlen hm hfree ?_
  intro i
  have hi := (hfills.backed.verifyChunk_iff i).1 (hverified i)
  rw [hfills.descriptor] at hi
  exact hi

/-- A peer's descriptor was added to a store, and the file of its entry can be made. -/
structure Accepted (s t : Store) (d : Descriptor) (e : Entry) (disk disk' : Disk) (id : FileId) :
    Prop where
  valid : s.Valid
  wellFormed : disk.WellFormed
  add : s.add d = .ok t
  lookup : t.lookup d.hash = some e
  mapFile : Entry.mapFile disk e.backingPath e.size = (.ok id, disk')

variable {s t : Store} {e : Entry}

theorem Accepted.eq_ofPeer (h : Accepted s t d e disk disk' id) :
    e = .ofPeer d (Path.join s.downloadDir (Store.fileName d)) := by
  have hl := h.valid.lookup_add h.add
  rw [h.lookup, Option.some_inj] at hl
  exact hl

theorem Accepted.opens (h : Accepted s t d e disk disk' id) : e.Opens disk disk' id := by
  have hm : e.mapping = none := by
    rw [h.eq_ofPeer]
    rfl
  exact Entry.opens_of_mapFile h.wellFormed hm h.mapFile

/-- What a complete check says of the file of a download. -/
theorem isComplete_run_iff (h : Accepted s t d e disk disk' id) (events : List Event) {e' : Entry}
    {disk'' : Disk} (he' : run events (e, disk) = (e', disk'')) :
    (e'.verify disk'').isComplete = true ↔ ∃ b, e'.bytes? disk'' = some b ∧
      b.length = d.size.toNat ∧ (.ofContent b = d.hash ∨ ∀ i, d.Matches b i) := by
  have he := h.eq_ofPeer
  subst he
  rcases run_ofPeer h.opens events with hfresh | hfills
  · rw [he', Prod.mk.injEq] at hfresh
    rw [hfresh.1, hfresh.2]
    have hno : ¬ ((Entry.ofPeer d (Path.join s.downloadDir (Store.fileName d))).verify
        disk).isComplete = true := by
      rw [VerifiedChunks.isComplete_iff]
      intro hall
      have h0 := hall 0
      rw [has_verify_ofPeer] at h0
      cases h0
    refine iff_of_false hno ?_
    rintro ⟨b, hb, -⟩
    cases hb
  · rw [he'] at hfills
    rw [hfills.backed.isComplete_iff, hfills.backed.bytes?_eq, hfills.descriptor]
    have hlen := hfills.backed.length_content
    rw [hfills.descriptor] at hlen
    simp [hlen]

theorem Accepted.wellFormed_mapped (h : Accepted s t d e disk disk' id) : disk'.WellFormed := by
  have hd := Entry.wellFormed_mapFile h.wellFormed e.backingPath e.size
  rw [h.mapFile] at hd
  exact hd

theorem ofContent_zeros : ContentHash.ofContent (Bytes.zeros 512) = .ofBytes
    [191, 166, 18, 21, 82, 0, 63, 230, 143, 108, 7, 39, 165, 179, 157, 56] := by
  decide +kernel

/-- Chunks of zeros for every place of a file of 512 bytes. -/
def zeroEvents (hash : ContentHash) : List Event :=
  ChunkIndex.all.map fun i => .accept ⟨hash, UInt32.ofNat i.val, 64, Bytes.zeros 64⟩

theorem accepted_of_name (hn : d.name = "n") (hs : d.size = 512) (hz : d.hash ≠ .zero) :
    ∃ t disk', Accepted (.empty "") t d (.ofPeer d "n") .empty disk' 0 ∧
      disk'.content 0 = Bytes.zeros 512 := by
  obtain ⟨name, hash, chunkHashes, size⟩ := d
  subst hn hs
  obtain ⟨t, ht⟩ := (Store.valid_empty "").exists_insert
    (e := .ofPeer ⟨"n", hash, chunkHashes, 512⟩ "n")
    (by decide : (Utf8.encode "n").length ≤ nameWidth) hz (Store.lookup_empty _ _)
  have hname : Path.fileName? "n" = some "n" := by decide +kernel
  have hpath : Path.join "" "n" = "n" := by decide
  have hadd : (Store.empty "").add ⟨"n", hash, chunkHashes, 512⟩ = .ok t := by
    rw [← ht, Store.add, Store.fileName]
    simp only [Store.empty, hname, Option.getD_some, hpath]
  have hmap : ∃ disk', Entry.mapFile .empty "n" 512 = (.ok 0, disk') ∧
      disk'.content 0 = Bytes.zeros 512 := ⟨_, rfl, by decide +kernel⟩
  obtain ⟨disk', hdisk, hzeros⟩ := hmap
  exact ⟨t, disk', ⟨Store.valid_empty "", Disk.wellFormed_empty, hadd,
    (Store.valid_empty "").lookup_insert ht, hdisk⟩, hzeros⟩

theorem chunkOf_zeros (hs : d.size = 512) (i : ChunkIndex) :
    d.chunkOf (Bytes.zeros 512) i = Bytes.zeros 64 := by
  rw [Descriptor.chunkOf, Descriptor.range, hs]
  revert i
  decide

theorem exists_carries_zeros (hs : d.size = 512) (hash : ContentHash) (i : ChunkIndex) :
    ∃ chunk ∈ arrivals (zeroEvents hash), d.Carries (Bytes.zeros 512) i chunk := by
  refine ⟨⟨hash, UInt32.ofNat i.val, 64, Bytes.zeros 64⟩, ?_, ?_, ?_, ?_⟩
  · rw [arrivals, zeroEvents, List.filterMap_map]
    exact List.mem_filterMap.2 ⟨i, VerifiedChunks.mem_chunkIndex_all i, rfl⟩
  · show (UInt32.ofNat i.val).toNat = i.val
    revert i
    decide
  · rw [chunkOf_zeros hs]
    rfl
  · rw [chunkOf_zeros hs]

theorem collisionFree_zeros (hs : d.size = 512) {chunks : List ChunkData}
    (hc : ∀ chunk ∈ chunks, chunk.data = Bytes.zeros 64) : ContentHash.CollisionFree
      (occurring d (Bytes.zeros 512) (Bytes.zeros 512) chunks) := by
  have hzeros : ∀ a ∈ occurring d (Bytes.zeros 512) (Bytes.zeros 512) chunks,
      a = Bytes.zeros 64 := by
    intro a ha
    rw [occurring, List.mem_append, List.mem_append] at ha
    rcases ha with (ha | ha) | ha
    · obtain ⟨i, -, rfl⟩ := List.mem_map.1 ha
      exact chunkOf_zeros hs i
    · obtain ⟨i, -, rfl⟩ := List.mem_map.1 ha
      exact chunkOf_zeros hs i
    · obtain ⟨chunk, hchunk, rfl⟩ := List.mem_map.1 ha
      exact hc chunk hchunk
  intro a ha b hb _
  rw [hzeros a ha, hzeros b hb]

theorem data_of_mem_zeroEvents {hash : ContentHash} {chunk : ChunkData}
    (h : chunk ∈ arrivals (zeroEvents hash)) : chunk.data = Bytes.zeros 64 := by
  rw [arrivals, zeroEvents, List.filterMap_map] at h
  obtain ⟨i, -, hi⟩ := List.mem_filterMap.1 h
  cases hi
  rfl

/-! ## What a complete check says -/

/-- A check is complete exactly if the file matches as a whole or every chunk does, wherever they
are read. For a download this says that the file has the declared size and either the declared hash
or the declared hash of every chunk. So a download that is complete has the declared hash just when
chunks that match do not put together another content. -/
theorem isComplete_download_iff (disk₀ : Disk) (e₀ : Entry) :
    ((e₀.verify disk₀).isComplete = true ↔ e₀.WholeMatches disk₀ ∨
      ∀ i, ∃ b, e₀.chunk? disk₀ i = some b ∧ .ofContent b = e₀.descriptor.chunkHashes.get i) ∧
    ∀ {s t d e disk disk' id}, Accepted s t d e disk disk' id →
      ∀ events e' disk'', run events (e, disk) = (e', disk'') →
        ((e'.verify disk'').isComplete = true ↔ ∃ b, e'.bytes? disk'' = some b ∧
          b.length = d.size.toNat ∧ (.ofContent b = d.hash ∨ ∀ i, d.Matches b i)) ∧
        (((e'.verify disk'').isComplete = true → ∃ b, e'.bytes? disk'' = some b ∧
          b.length = d.size.toNat ∧ .ofContent b = d.hash) ↔
          ∀ b, e'.bytes? disk'' = some b → b.length = d.size.toNat → (∀ i, d.Matches b i) →
            .ofContent b = d.hash) := by
  refine ⟨?_, fun {s t d e disk disk' id} h events e' disk'' he' => ?_⟩
  · rw [Entry.isComplete_verify]
    exact or_congr_right (forall_congr' fun i => Entry.verifyChunk_iff i)
  · have hcomplete := isComplete_run_iff h events he'
    refine ⟨hcomplete, ?_⟩
    rw [hcomplete]
    constructor
    · intro himp b hb hlen hm
      obtain ⟨b', hb', -, hhash⟩ := himp ⟨b, hb, hlen, .inr hm⟩
      obtain rfl : b' = b := Option.some.inj (hb'.symm.trans hb)
      exact hhash
    · rintro himp ⟨b, hb, hlen, hhash | hm⟩
      · exact ⟨b, hb, hlen, hhash⟩
      · exact ⟨b, hb, hlen, himp b hb hlen hm⟩

/-- A peer may declare a hash that its chunks put together do not have. The download is complete
then with bytes that do not have the declared hash. -/
theorem isComplete_download_of_other_hash :
    let d := { Descriptor.ofContent "n" (Bytes.zeros 512) with hash := .ofBytes [1] }
    ∃ t e disk' e' disk'' b, Accepted (.empty "") t d e .empty disk' 0 ∧
      run (zeroEvents d.hash) (e, .empty) = (e', disk'') ∧ (e'.verify disk'').isComplete = true ∧
      e'.bytes? disk'' = some b ∧ b.length = d.size.toNat ∧ .ofContent b ≠ d.hash := by
  intro d
  have hs : d.size = 512 := by decide +kernel
  have hlen : (Bytes.zeros 512).length = d.size.toNat := by
    rw [hs, Bytes.length_zeros]
    rfl
  have hmatches (i : ChunkIndex) : d.Matches (Bytes.zeros 512) i :=
    (Descriptor.matches_ofContent "n" (Bytes.zeros 512) i).congr rfl rfl
  obtain ⟨t, disk', h, hprior⟩ := accepted_of_name (d := d) rfl hs
    (by decide : ContentHash.ofBytes [1] ≠ .zero)
  obtain ⟨⟨e', disk''⟩, hrun⟩ : ∃ s, run (zeroEvents d.hash) (.ofPeer d "n", .empty) = s := ⟨_, rfl⟩
  obtain ⟨hfills, hall, hcontent⟩ :=
    complete_run h.opens hlen hmatches hrun (exists_carries_zeros hs d.hash)
  have hcomplete : (e'.verify disk'').isComplete = true := by
    rw [VerifiedChunks.isComplete, hall]
    rfl
  obtain ⟨b, hb, hsize, -⟩ := ((isComplete_download_iff disk'' e').2 h _ _ _ hrun).1.1 hcomplete
  have hzeros : b = Bytes.zeros 512 := by
    rw [hfills.backed.bytes?_eq, Option.some_inj] at hb
    rw [← hb]
    refine hcontent ?_
    rw [hprior]
    exact collisionFree_zeros hs fun _ => data_of_mem_zeroEvents
  refine ⟨t, _, disk', e', disk'', b, h, hrun, hcomplete, hb, hsize, ?_⟩
  rw [hzeros, ofContent_zeros]
  decide

/-! ## What is downloaded -/

/-- In a download of a content, whatever else arrives in whatever order: a chunk that is verified
stays so and keeps its bytes, and once every chunk has arrived as it should the file is complete. If
no two chunks in play have the same hash, it is the content then. -/
theorem download_survives {name : String} {c : Bytes}
    (h : Accepted s t (.ofContent name c) e disk disk' id) (hsize : c.length < 2 ^ 64) :
    (∀ before after e₁ disk₁ e₂ disk₂ (i : ChunkIndex), run before (e, disk) = (e₁, disk₁) →
      run after (e₁, disk₁) = (e₂, disk₂) → e₁.verifyChunk disk₁ i = true →
        e₂.verifyChunk disk₂ i = true ∧ e₂.chunk? disk₂ i = e₁.chunk? disk₁ i ∧
        ∃ b₁ b₂, e₁.bytes? disk₁ = some b₁ ∧ e₂.bytes? disk₂ = some b₂ ∧
          (Descriptor.ofContent name c).chunkOf b₂ i = (Descriptor.ofContent name c).chunkOf b₁ i) ∧
    ∀ events e' disk'', run events (e, disk) = (e', disk'') →
      (∀ i, ∃ chunk ∈ arrivals events, (Descriptor.ofContent name c).Carries c i chunk) →
        e'.verify disk'' = .all ∧
        (ContentHash.CollisionFree
            (occurring (.ofContent name c) c (disk'.content id) (arrivals events)) →
          e'.bytes? disk'' = some c) := by
  have ho := h.opens
  have he := h.eq_ofPeer
  subst he
  have hlen : c.length = (Descriptor.ofContent name c).size.toNat :=
    (Descriptor.size_ofContent name hsize).symm
  have hmatches := Descriptor.matches_ofContent name c
  constructor
  · intro before after e₁ disk₁ e₂ disk₂ i h₁ h₂ hv
    have hfills := fills_of_verifyChunk ho (by rw [h₁]; exact hv)
    have hkeeps := keeps_run hfills.backed after
    rw [h₁] at hfills hkeeps
    rw [h₂] at hkeeps
    have hkept := hkeeps.kept i ((hfills.backed.verifyChunk_iff i).1 hv)
    refine ⟨hkeeps.verifyChunk hfills.backed hv, ?_, _, _, hfills.backed.bytes?_eq,
      hkeeps.backed.bytes?_eq, ?_⟩
    · rw [hkeeps.backed.chunk?_eq, hfills.backed.chunk?_eq, hkeeps.descriptor, hkept]
    · rw [hfills.descriptor] at hkept
      exact hkept
  · intro events e' disk'' he' hall
    obtain ⟨hfills, hcomplete, hcontent⟩ := complete_run ho hlen hmatches he' hall
    refine ⟨hcomplete, ?_⟩
    intro hfree
    rw [hfills.backed.bytes?_eq, hcontent hfree]

/-- Every chunk of a file of zeros arrives. -/
theorem download_survives_zeros :
    let d := Descriptor.ofContent "n" (Bytes.zeros 512)
    ∃ t e disk' e₁ disk₁ e₂ disk₂ b, Accepted (.empty "") t d e .empty disk' 0 ∧
      (Bytes.zeros 512).length < 2 ^ 64 ∧
      run (zeroEvents d.hash) (e, .empty) = (e₁, disk₁) ∧ run [.save] (e₁, disk₁) = (e₂, disk₂) ∧
      (∀ i, ∃ chunk ∈ arrivals (zeroEvents d.hash), d.Carries (Bytes.zeros 512) i chunk) ∧
      ContentHash.CollisionFree (occurring d (Bytes.zeros 512) (disk'.content 0)
        (arrivals (zeroEvents d.hash))) ∧
      e₁.verify disk₁ = .all ∧ e₁.bytes? disk₁ = some (Bytes.zeros 512) ∧
      e₁.verifyChunk disk₁ 0 = true ∧ e₂.verifyChunk disk₂ 0 = true ∧
      e₂.bytes? disk₂ = some b ∧ d.chunkOf b 0 = d.chunkOf (Bytes.zeros 512) 0 := by
  intro d
  have hs : d.size = 512 := by decide +kernel
  have hlen : (Bytes.zeros 512).length = d.size.toNat := by
    rw [hs, Bytes.length_zeros]
    rfl
  have hz : d.hash ≠ .zero := by
    rw [show d.hash = _ from ofContent_zeros]
    decide
  obtain ⟨t, disk', h, hprior⟩ := accepted_of_name (d := d) rfl hs hz
  have hsize : (Bytes.zeros 512).length < 2 ^ 64 := by
    rw [Bytes.length_zeros]
    decide
  have hcarries := exists_carries_zeros (d := d) hs d.hash
  have hfree : ContentHash.CollisionFree (occurring d (Bytes.zeros 512) (disk'.content 0)
      (arrivals (zeroEvents d.hash))) := by
    rw [hprior]
    exact collisionFree_zeros hs fun _ => data_of_mem_zeroEvents
  obtain ⟨⟨e₁, disk₁⟩, h₁⟩ : ∃ s, run (zeroEvents d.hash) (.ofPeer d "n", .empty) = s := ⟨_, rfl⟩
  obtain ⟨⟨e₂, disk₂⟩, h₂⟩ : ∃ s, run [.save] (e₁, disk₁) = s := ⟨_, rfl⟩
  obtain ⟨hstays, hends⟩ := download_survives h hsize
  obtain ⟨hall, hbytes⟩ := hends _ _ _ h₁ hcarries
  have hverified : e₁.verifyChunk disk₁ 0 = true := by
    obtain ⟨chunk, hmem, hc⟩ := hcarries 0
    have hv := verifyChunk_run h.opens hlen (Descriptor.matches_ofContent "n" _ 0) hmem hc
    rw [h₁] at hv
    exact hv
  obtain ⟨hkept, -, b₁, b₂, hb₁, hb₂, hsame⟩ := hstays _ _ _ _ _ _ 0 h₁ h₂ hverified
  rw [hbytes hfree, Option.some_inj] at hb₁
  rw [← hb₁] at hsame
  exact ⟨t, _, disk', e₁, disk₁, e₂, disk₂, b₂, h, hsize, h₁, h₂, hcarries, hfree, hall,
    hbytes hfree, hverified, hkept, hb₂, hsame⟩

end Relay

end FileMesh
