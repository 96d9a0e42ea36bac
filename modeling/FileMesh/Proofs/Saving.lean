import FileMesh.Proofs.Delivery

/-!
# Saving is invisible

Once the file of an entry was mapped, whoever uses the entry sees bytes in memory: every call
answers from the bytes of the file and the descriptor alone, and changes the bytes as a call on a
list of bytes would. Whether the file is mapped when the call comes, or has to be mapped again,
makes no difference. On bytes in memory, saving does nothing; so it can be left out or put in
anywhere.
-/

namespace FileMesh

namespace Descriptor

instance (d : Descriptor) (b : Bytes) (i : ChunkIndex) : Decidable (d.Matches b i) :=
  inferInstanceAs (Decidable (_ = _))

/-- The chunk with a number, if there is one. -/
def select (index : Nat) : Except StoreError ChunkIndex :=
  if h : index < chunkCount then .ok ⟨index, h⟩ else .error (.noSuchChunk index)

theorem select_of_eq {index : Nat} {i : ChunkIndex} (h : index = i.val) : select index = .ok i := by
  subst h
  exact dif_pos i.isLt

theorem select_of_le {index : Nat} (h : chunkCount ≤ index) :
    select index = .error (.noSuchChunk index) := dif_neg (Nat.not_lt.2 h)

end Descriptor

namespace Entry

/-! ## Calls -/

/-- What is done with an entry. A chunk that was opened is looked at, and so is one into which bytes
were put. -/
inductive Call where
  | openChunk (index : Nat)
  | writeChunk (index offset : Nat) (data : Bytes)
  | readChunk (index : Nat)
  | verify
  | verifyChunk (index : Nat)
  | accept (chunk : ChunkData)
  | save
deriving DecidableEq

/-- What comes back from a call. A chunk that was opened comes with its range. -/
inductive Answer where
  | opened (result : Except StoreError (ChunkRange × Bytes))
  | bytes (result : Except StoreError Bytes)
  | verified (chunks : VerifiedChunks)
  | matched (result : Bool)
  | accepted (outcome : Relay.DeliveryOutcome)

namespace Call

/-- What a call answers, and the entry and the disk afterwards. Saving answers nothing. -/
def apply : Call → Entry × Disk → Option Answer × Entry × Disk
  | openChunk index, (e, disk) =>
    let (result, e, disk) := e.openChunk disk index
    (some (.opened (result.map fun r => (r, e.view disk r))), e, disk)
  | writeChunk index offset data, (e, disk) =>
    let (result, e, disk) := e.writeChunk disk index offset data
    (some (.bytes result), e, disk)
  | readChunk index, (e, disk) =>
    let (result, e, disk) := e.readChunk disk index
    (some (.bytes result), e, disk)
  | verify, (e, disk) => (some (.verified (e.verify disk)), e, disk)
  | verifyChunk index, (e, disk) => (some (.matched (e.verifyChunk disk index)), e, disk)
  | accept chunk, (e, disk) =>
    let (outcome, e, disk) := Relay.accept disk e chunk
    (some (.accepted outcome), e, disk)
  | save, (e, disk) => (none, (e.save disk).2)

/-- What a call on bytes in memory answers, and the bytes afterwards. -/
def onBytes (d : Descriptor) (b : Bytes) : Call → Option Answer × Bytes
  | openChunk index =>
    (some (.opened ((Descriptor.select index).map fun i => (d.range i, d.chunkOf b i))), b)
  | writeChunk index offset data =>
    match Descriptor.select index with
    | .error cause => (some (.bytes (.error cause)), b)
    | .ok i =>
      let data := data.take ((d.range i).length.toNat - offset)
      let b := b.overwrite ((d.range i).start.toNat + offset) data
      (some (.bytes (.ok (d.chunkOf b i))), b)
  | readChunk index => (some (.bytes ((Descriptor.select index).map (d.chunkOf b))), b)
  | verify =>
    (some (.verified (if ContentHash.ofContent b = d.hash then .all
      else .ofPredicate fun i => d.Matches b i)), b)
  | verifyChunk index =>
    match Descriptor.select index with
    | .error _ => (some (.matched false), b)
    | .ok i => (some (.matched (d.Matches b i)), b)
  | accept chunk =>
    match Descriptor.select chunk.chunkIndex.toNat with
    | .error _ => (some (.accepted .failed), b)
    | .ok i =>
      if d.Matches b i then (some (.accepted .alreadyVerified), b)
      else if chunk.declaredSize.toNat = (d.range i).length.toNat ∧
          chunk.data.length = (d.range i).length.toNat then
        (some (.accepted .stored), b.overwrite (d.range i).start.toNat chunk.data)
      else
        (some (.accepted (.sizeMismatch (d.range i).length.toNat chunk.declaredSize)), b)
  | save => (none, b)

end Call

/-- The answers of several calls, and the entry and the disk afterwards. -/
def run (s : Entry × Disk) : List Call → List Answer × Entry × Disk
  | [] => ([], s)
  | call :: calls =>
    let (answer, s) := call.apply s
    let (answers, s) := run s calls
    (answer.toList ++ answers, s)

/-- The answers of several calls on bytes in memory, and the bytes afterwards. -/
def runOnBytes (d : Descriptor) (b : Bytes) : List Call → List Answer × Bytes
  | [] => ([], b)
  | call :: calls =>
    let (answer, b) := call.onBytes d b
    let (answers, b) := runOnBytes d b calls
    (answer.toList ++ answers, b)

/-- On bytes in memory, saves can be left out. -/
theorem runOnBytes_filter (d : Descriptor) (b : Bytes) (calls : List Call) :
    runOnBytes d b (calls.filter (· ≠ .save)) = runOnBytes d b calls := by
  induction calls generalizing b with
  | nil => rfl
  | cons call calls ih =>
    by_cases hsave : call = .save
    · subst hsave
      rw [List.filter_cons_of_neg (by simp), ih, runOnBytes]
      rfl
    · rw [List.filter_cons_of_pos (by simpa using hsave)]
      simp only [runOnBytes, ih]

/-! ## Entries that have their file -/

theorem openChunk_of_le {index : Nat} (h : chunkCount ≤ index) (disk : Disk) (e : Entry) :
    e.openChunk disk index = (.error (.noSuchChunk index), e, disk) := by
  have hr : e.descriptor.chunkRange? index = none := by
    rw [Descriptor.chunkRange?, ChunkRange.ofIndex?, dif_neg (Nat.not_lt.2 h)]
  simp only [openChunk, hr]

variable {disk base : Disk} {e : Entry} {id : FileId} {i : ChunkIndex} {d : Descriptor}
  {path : String} {b : Bytes} {s : Entry × Disk}

/-- The entry has the file `id` with the bytes `b`, mapped or not, and the other files are those of
`base`. -/
structure Shows (d : Descriptor) (path : String) (id : FileId) (base : Disk) (b : Bytes)
    (s : Entry × Disk) : Prop where
  backed : s.1.Backed s.2 id
  descriptor : s.1.descriptor = d
  backingPath : s.1.backingPath = path
  content : s.2.content id = b
  others : ∀ j, j ≠ id → s.2.content j = base.content j

namespace Backed

/-- Opening changes no byte of any file. -/
theorem opens_content (h : e.Backed disk id) :
    ∃ disk', e.Opens disk disk' id ∧ ∀ j, disk'.content j = disk.content j := by
  obtain ⟨disk', ho, hsame⟩ := h.opens
  refine ⟨disk', ho, fun j => ?_⟩
  by_cases hj : id = j
  · rw [← hj, hsame]
  · have hopen := ho.openFile
    rcases h.mapping with hm | hm
    · rw [openFile_of_mapFile hm (mapFile_of_bound h.bound h.admits)] at hopen
      cases hopen
      rw [Disk.content, Disk.file_setFile_of_ne _ hj, Disk.content]
    · rw [openFile, hm] at hopen
      obtain rfl : disk = disk' := (Prod.mk.inj (Prod.mk.inj hopen).2).2
      rfl

theorem openChunk (h : e.Backed disk id) (i : ChunkIndex) : ∃ disk',
    e.openChunk disk i = (.ok (e.descriptor.range i), e.opened id, disk') ∧
      e.Opens disk disk' id ∧ ∀ j, disk'.content j = disk.content j := by
  obtain ⟨disk', ho, hsame⟩ := h.opens_content
  have hr : e.descriptor.chunkRange? i = some (e.descriptor.range i) :=
    Descriptor.chunkRange?_of_eq rfl
  refine ⟨disk', ?_, ho, hsame⟩
  simp only [Entry.openChunk, hr, ho.openFile, Except.map]

/-- A check answers from the bytes of the file. -/
theorem verify_eq (h : e.Backed disk id) : e.verify disk =
    if ContentHash.ofContent (disk.content id) = e.descriptor.hash then .all
    else .ofPredicate fun i => e.descriptor.Matches (disk.content id) i := by
  apply VerifiedChunks.ext_has
  intro i
  rw [Bool.eq_iff_iff, h.has_verify]
  split
  · rename_i hw
    simp [hw]
  · rename_i hw
    simp [hw]

/-- So does the check of a chunk alone. -/
theorem verifyChunk_eq (h : e.Backed disk id) (i : ChunkIndex) :
    e.verifyChunk disk i = decide (e.descriptor.Matches (disk.content id) i) := by
  rw [Bool.eq_iff_iff, h.verifyChunk_iff, decide_eq_true_iff]

end Backed

/-! ## A call is one on bytes in memory -/

namespace Shows

theorem of_content_eq {e' : Entry} {disk' : Disk} (h : Shows d path id base b (e, disk))
    (hb : e'.Backed disk' id) (hd : e'.descriptor = e.descriptor)
    (hp : e'.backingPath = e.backingPath) (hc : ∀ j, disk'.content j = disk.content j) :
    Shows d path id base b (e', disk') where
  backed := hb
  descriptor := hd.trans h.descriptor
  backingPath := hp.trans h.backingPath
  content := (hc id).trans h.content
  others j hj := (hc j).trans (h.others j hj)

/-- The entry is opened. -/
theorem opened {disk' : Disk} (h : Shows d path id base b (e, disk)) (ho : e.Opens disk disk' id)
    (hc : ∀ j, disk'.content j = disk.content j) : Shows d path id base b (e.opened id, disk') :=
  h.of_content_eq ho.backed rfl rfl hc

theorem view_eq (h : Shows d path id base b (e, disk)) (hm : e.mapping = some id)
    (i : ChunkIndex) : e.view disk (d.range i) = d.chunkOf b i := by
  obtain rfl : e.descriptor = d := h.descriptor
  obtain rfl : disk.content id = b := h.content
  rw [view, hm]
  exact h.backed.rangeOf_eq i

/-- Bytes are put into the file. -/
theorem put (h : Shows d path id base b (e, disk)) (hm : e.mapping = some id) (r : ChunkRange)
    (offset : Nat) (data : Bytes) : Shows d path id base
      (b.overwrite (r.start.toNat + offset) (data.take (r.length.toNat - offset)))
      (e, e.put disk r offset data) where
  backed := h.backed.put hm r offset data
  descriptor := h.descriptor
  backingPath := h.backingPath
  content := by
    show (e.put disk r offset data).content id = _
    rw [Entry.put, hm, Disk.content_put, show disk.content id = b from h.content]
  others j hj := by
    show (e.put disk r offset data).content j = _
    rw [Entry.put, hm, Disk.content_put_of_ne _ (Ne.symm hj)]
    exact h.others j hj

end Shows

/-- What a call answers from an entry that has its file is what it answers from the bytes of the
file, and the bytes afterwards are the same. -/
theorem shows_apply (h : Shows d path id base b s) (call : Call) :
    (call.apply s).1 = (call.onBytes d b).1 ∧
      Shows d path id base (call.onBytes d b).2 (call.apply s).2 := by
  obtain ⟨e, disk⟩ := s
  obtain rfl : e.descriptor = d := h.descriptor
  obtain rfl : disk.content id = b := h.content
  have hb : e.Backed disk id := h.backed
  have hselect (index : Nat) : (∃ i : ChunkIndex, index = i.val) ∨ chunkCount ≤ index :=
    (Nat.lt_or_ge index chunkCount).imp (fun hlt => ⟨⟨index, hlt⟩, rfl⟩) fun hle => hle
  cases call with
  | openChunk index =>
    rcases hselect index with ⟨i, rfl⟩ | hle
    · obtain ⟨disk', hopen, ho, hc⟩ := hb.openChunk i
      simp only [Call.apply, Call.onBytes, hopen, Descriptor.select_of_eq rfl, Except.map]
      rw [(h.opened ho hc).view_eq rfl i]
      exact ⟨rfl, h.opened ho hc⟩
    · simp only [Call.apply, Call.onBytes, openChunk_of_le hle, Descriptor.select_of_le hle]
      exact ⟨rfl, h⟩
  | writeChunk index offset data =>
    rcases hselect index with ⟨i, rfl⟩ | hle
    · obtain ⟨disk', hopen, ho, hc⟩ := hb.openChunk i
      simp only [Call.apply, Call.onBytes, writeChunk, hopen, Descriptor.select_of_eq rfl]
      have hput := (h.opened ho hc).put rfl (e.descriptor.range i) offset data
      rw [hput.view_eq rfl i]
      exact ⟨rfl, hput⟩
    · simp only [Call.apply, Call.onBytes, writeChunk, openChunk_of_le hle,
        Descriptor.select_of_le hle]
      exact ⟨trivial, h⟩
  | readChunk index =>
    rcases hselect index with ⟨i, rfl⟩ | hle
    · obtain ⟨disk', hopen, ho, hc⟩ := hb.openChunk i
      simp only [Call.apply, Call.onBytes, readChunk, hopen, Descriptor.select_of_eq rfl,
        Except.map]
      rw [(h.opened ho hc).view_eq rfl i]
      exact ⟨rfl, h.opened ho hc⟩
    · simp only [Call.apply, Call.onBytes, readChunk, openChunk_of_le hle,
        Descriptor.select_of_le hle]
      exact ⟨rfl, h⟩
  | verify =>
    simp only [Call.apply, Call.onBytes, hb.verify_eq]
    exact ⟨trivial, h⟩
  | verifyChunk index =>
    rcases hselect index with ⟨i, rfl⟩ | hle
    · simp only [Call.apply, Call.onBytes, hb.verifyChunk_eq, Descriptor.select_of_eq rfl]
      exact ⟨trivial, h⟩
    · simp only [Call.apply, Call.onBytes, verifyChunk_of_le hle, Descriptor.select_of_le hle]
      exact ⟨trivial, h⟩
  | accept chunk =>
    rcases hselect chunk.chunkIndex.toNat with ⟨i, hi⟩ | hle
    · by_cases hm : e.descriptor.Matches (disk.content id) i
      · have hv : e.verifyChunk disk chunk.chunkIndex.toNat = true := by
          rw [hi, hb.verifyChunk_eq, decide_eq_true hm]
        simp only [Call.apply, Call.onBytes, Relay.accept_of_verified hv,
          Descriptor.select_of_eq hi, if_pos hm]
        exact ⟨trivial, h⟩
      · have hv : e.verifyChunk disk i = false := by
          rw [hb.verifyChunk_eq, decide_eq_false hm]
        obtain ⟨disk', ho, hc⟩ := hb.opens_content
        simp only [Call.apply, Call.onBytes, Relay.accept_of_openFile hi hv ho.openFile,
          Descriptor.select_of_eq hi, if_neg hm]
        split
        · rename_i hsize
          have hput := (h.opened ho hc).put rfl (e.descriptor.range i) 0 chunk.data
          rw [Nat.add_zero, Nat.sub_zero, List.take_of_length_le hsize.2.le] at hput
          exact ⟨rfl, hput⟩
        · exact ⟨rfl, h.opened ho hc⟩
    · simp only [Call.apply, Call.onBytes, Relay.accept_of_le hle, Descriptor.select_of_le hle]
      exact ⟨trivial, h⟩
  | save => exact ⟨rfl, h.of_content_eq hb.save rfl rfl fun j => content_save disk e j⟩

/-- What several calls answer, and leave, is what they answer and leave on the bytes of the file. -/
theorem shows_run (h : Shows d path id base b s) (calls : List Call) :
    (run s calls).1 = (runOnBytes d b calls).1 ∧
      Shows d path id base (runOnBytes d b calls).2 (run s calls).2 := by
  induction calls generalizing s b with
  | nil => exact ⟨rfl, h⟩
  | cons call calls ih =>
    obtain ⟨hanswer, hshows⟩ := shows_apply h call
    obtain ⟨hanswers, hends⟩ := ih hshows
    simp only [run, runOnBytes]
    exact ⟨by rw [hanswer, hanswers], hends⟩

/-! ## Saves -/

/-- Through the mapping of the file, the checks answer what they answer at its path. -/
theorem Shows.checks (h : Shows d path id base b (e, disk)) :
    (e.opened id).verify disk = e.unmap.verify disk ∧
      ∀ index, (e.opened id).verifyChunk disk index = e.unmap.verifyChunk disk index := by
  have hb : e.Backed disk id := h.backed
  have hopened : (e.opened id).Backed disk id :=
    ⟨rfl, hb.bound, .inr rfl, hb.length, hb.admits⟩
  have hunmap : e.unmap.Backed disk id := ⟨hb.path, hb.bound, .inl rfl, hb.length, hb.admits⟩
  refine ⟨hopened.verify_eq.trans hunmap.verify_eq.symm, fun index => ?_⟩
  rcases Nat.lt_or_ge index chunkCount with hlt | hle
  · exact (hopened.verifyChunk_eq ⟨index, hlt⟩).trans (hunmap.verifyChunk_eq ⟨index, hlt⟩).symm
  · rw [verifyChunk_of_le hle, verifyChunk_of_le hle]

theorem Shows.bytes?_eq (h : Shows d path id base b (e, disk)) : e.bytes? disk = some b := by
  rw [← show disk.content id = b from h.content]
  exact h.backed.bytes?_eq

/-- An entry whose file was just mapped shows it. -/
theorem exists_shows {disk₀ : Disk} {e₀ : Entry} {index : Nat} {r : ChunkRange}
    (hd : disk₀.WellFormed) (hm : e₀.mapping = none)
    (h : e₀.openChunk disk₀ index = (.ok r, e, disk)) : ∃ id, e.mapping = some id ∧
      Shows e.descriptor e.backingPath id disk (disk.content id) (e, disk) := by
  have ho : ∃ id, e₀.Opens disk₀ disk id ∧ e = e₀.opened id := by
    rw [Entry.openChunk] at h
    split at h
    · cases h
    · rw [openFile_of_unmapped hm] at h
      obtain ⟨⟨result, disk₁⟩, hmap⟩ :
        ∃ x, mapFile disk₀ e₀.backingPath e₀.size = x := ⟨_, rfl⟩
      rw [hmap] at h
      cases result with
      | error cause => cases h
      | ok id =>
        cases h
        exact ⟨id, opens_of_mapFile hd hm hmap, rfl⟩
  obtain ⟨id, hopens, rfl⟩ := ho
  exact ⟨id, rfl, hopens.backed, rfl, rfl, rfl, fun _ _ => rfl⟩

/-- Let the file of an entry be mapped. From then on, two sequences of calls that differ only in
where and how often the entry is saved have the same answers and leave the same bytes in every file,
and the path of the entry stays that of the file. Wherever a sequence ends, the checks answer the
same through the mapping of the file and at its path. -/
theorem run_eq_of_saves {disk₀ : Disk} {e₀ : Entry} {index : Nat} {r : ChunkRange}
    (hd : disk₀.WellFormed) (hm : e₀.mapping = none)
    (h : e₀.openChunk disk₀ index = (.ok r, e, disk)) :
    (∀ calls calls' : List Call, calls.filter (· ≠ .save) = calls'.filter (· ≠ .save) →
      ∀ answers answers' e₁ disk₁ e₂ disk₂, run (e, disk) calls = (answers, e₁, disk₁) →
        run (e, disk) calls' = (answers', e₂, disk₂) →
        answers = answers' ∧ (∃ b, e₁.bytes? disk₁ = some b ∧ e₂.bytes? disk₂ = some b) ∧
          ∀ j, disk₁.content j = disk₂.content j) ∧
    ∃ id, e.mapping = some id ∧ ∀ calls answers e₁ disk₁,
      run (e, disk) calls = (answers, e₁, disk₁) →
        (e₁.opened id).verify disk₁ = e₁.unmap.verify disk₁ ∧
        ∀ k, (e₁.opened id).verifyChunk disk₁ k = e₁.unmap.verifyChunk disk₁ k := by
  obtain ⟨id, hid, hshows⟩ := exists_shows hd hm h
  constructor
  · intro calls calls' hfilter answers answers' e₁ disk₁ e₂ disk₂ hrun hrun'
    obtain ⟨hanswers, hends⟩ := shows_run hshows calls
    obtain ⟨hanswers', hends'⟩ := shows_run hshows calls'
    -- On the bytes of the file the two are one run, that without the saves.
    rw [← runOnBytes_filter, hfilter, runOnBytes_filter, hrun] at hanswers hends
    rw [hrun'] at hanswers' hends'
    refine ⟨hanswers.trans hanswers'.symm, ⟨_, hends.bytes?_eq, hends'.bytes?_eq⟩, fun j => ?_⟩
    by_cases hj : j = id
    · rw [hj]
      exact hends.content.trans hends'.content.symm
    · exact (hends.others j hj).trans (hends'.others j hj).symm
  · refine ⟨id, hid, fun calls answers e₁ disk₁ hrun => ?_⟩
    have hends := (shows_run hshows calls).2
    rw [hrun] at hends
    exact hends.checks

/-- A file of three bytes is mapped and changed, with and without saves. -/
theorem run_eq_of_saves_small :
    let e₀ := ofFile (.ofContent "f" [1, 2, 3]) "f"
    let calls : List Call := [.writeChunk 7 0 [9], .verify, .readChunk 7]
    let calls' : List Call :=
      [.save, .writeChunk 7 0 [9], .save, .save, .verify, .save, .readChunk 7, .save]
    ∃ disk₀ r e disk answers e₁ disk₁ e₂ disk₂, Disk.empty.write "f" [1, 2, 3] = .ok disk₀ ∧
      disk₀.WellFormed ∧ e₀.mapping = none ∧ e₀.openChunk disk₀ 7 = (.ok r, e, disk) ∧
      run (e, disk) calls = (answers, e₁, disk₁) ∧
      run (e, disk) calls' = (answers, e₂, disk₂) ∧
      e₁.isMapped = true ∧ e₂.isMapped = false ∧
      e₁.bytes? disk₁ = some [9, 2, 3] ∧ e₂.bytes? disk₂ = some [9, 2, 3] ∧
      (e₂.opened 0).verify disk₂ = e₂.unmap.verify disk₂ := by
  intro e₀ calls calls'
  obtain ⟨disk₀, hw, hopens, hruns⟩ : ∃ disk₀, Disk.empty.write "f" [1, 2, 3] = .ok disk₀ ∧
      (e₀.openChunk disk₀ 7).1.toOption.isSome = true ∧
      let s := (e₀.openChunk disk₀ 7).2
      s.1.mapping = some 0 ∧ (run s calls).2.1.isMapped = true ∧
        (run s calls').2.1.isMapped = false ∧
        (run s calls).2.1.bytes? (run s calls).2.2 = some [9, 2, 3] :=
    ⟨_, rfl, by decide +kernel, by decide +kernel⟩
  obtain ⟨⟨result, e, disk⟩, ho⟩ : ∃ x, e₀.openChunk disk₀ 7 = x := ⟨_, rfl⟩
  rw [ho] at hopens hruns
  obtain ⟨r, hr⟩ := Option.isSome_iff_exists.1 hopens
  obtain rfl := toOption_eq_some_iff.1 hr
  obtain ⟨⟨answers, e₁, disk₁⟩, h₁⟩ : ∃ x, run (e, disk) calls = x := ⟨_, rfl⟩
  obtain ⟨⟨answers', e₂, disk₂⟩, h₂⟩ : ∃ x, run (e, disk) calls' = x := ⟨_, rfl⟩
  simp only [h₁, h₂] at hruns
  obtain ⟨hid, hmapped, hunmapped, hb⟩ := hruns
  have hd := Disk.wellFormed_empty.write hw
  obtain ⟨hsaves, id, hid', hchecks⟩ := run_eq_of_saves hd rfl ho
  obtain ⟨rfl, ⟨b, hb₁, hb₂⟩, -⟩ := hsaves calls calls' (by decide) _ _ _ _ _ _ h₁ h₂
  rw [hid, Option.some_inj] at hid'
  obtain rfl := hid'
  refine ⟨disk₀, r, e, disk, answers, e₁, disk₁, e₂, disk₂, hw, hd, rfl, ho, h₁, h₂, hmapped,
    hunmapped, hb, ?_, (hchecks _ _ _ _ h₂).1⟩
  rw [hb₂, ← hb₁]
  exact hb

end Entry

end FileMesh
