import FileMesh.Relay
import FileMesh.Proofs.Backing
import FileMesh.Proofs.Store

/-!
# Deliveries to an entry

Chunks arrive in any order, more than once, damaged and for other places than their own; in between
the file is saved and checked. A chunk that matches is never written again and no delivery touches
two chunks, so whatever arrives, what is verified stays, and what is right is kept.
-/

namespace FileMesh

namespace Descriptor

/-- A delivery for chunk `i` that has its size. -/
structure Fits (d : Descriptor) (i : ChunkIndex) (chunk : ChunkData) : Prop where
  index : chunk.chunkIndex.toNat = i.val
  declared : chunk.declaredSize.toNat = (d.range i).length.toNat
  length : chunk.data.length = (d.range i).length.toNat

/-- A delivery of chunk `i` of the content `c`. -/
structure Carries (d : Descriptor) (c : Bytes) (i : ChunkIndex) (chunk : ChunkData) : Prop where
  index : chunk.chunkIndex.toNat = i.val
  declared : chunk.declaredSize.toNat = (d.chunkOf c i).length
  data : chunk.data = d.chunkOf c i

theorem Carries.fits {d : Descriptor} {c : Bytes} {i : ChunkIndex} {chunk : ChunkData}
    (h : d.Carries c i chunk) (hc : c.length = d.size.toNat) : d.Fits i chunk := by
  have hlen := length_chunkOf hc i
  exact ⟨h.index, h.declared.trans hlen, by rw [h.data, hlen]⟩

end Descriptor

namespace Relay

variable {disk disk' : Disk} {e : Entry} {id : FileId} {i j : ChunkIndex} {chunk : ChunkData}

/-- What is done with an entry: a chunk arrives, the file is saved, or the file is checked, which
changes nothing. -/
inductive Event where
  | accept (chunk : ChunkData)
  | save
  | verify
deriving DecidableEq, Repr

/-- The entry and the disk afterwards. -/
def Event.apply : Event → Entry × Disk → Entry × Disk
  | accept chunk, (e, disk) => (Relay.accept disk e chunk).2
  | save, (e, disk) => (e.save disk).2
  | verify, s => s

/-- The entry and the disk after a run. -/
def run (events : List Event) (s : Entry × Disk) : Entry × Disk :=
  events.foldl (fun s event => event.apply s) s

/-- The chunks that arrive in a run. -/
def arrivals (events : List Event) : List ChunkData :=
  events.filterMap fun
    | .accept chunk => some chunk
    | _ => none

/-! ## One delivery -/

theorem accept_of_verified (h : e.verifyChunk disk chunk.chunkIndex.toNat = true) :
    accept disk e chunk = (.alreadyVerified, e, disk) := by
  simp only [accept, h, if_true]

theorem accept_of_le (h : chunkCount ≤ chunk.chunkIndex.toNat) :
    accept disk e chunk = (.failed, e, disk) := by
  have hr : e.descriptor.chunkRange? chunk.chunkIndex.toNat = none := by
    rw [Descriptor.chunkRange?, ChunkRange.ofIndex?, dif_neg (Nat.not_lt.2 h)]
  simp only [accept, Entry.verifyChunk_of_le h, Entry.openChunk, hr, Bool.false_eq_true, if_false]

/-- Only a delivery for a chunk that is missing changes something. -/
theorem accept_eq_or_missing (disk : Disk) (e : Entry) (chunk : ChunkData) :
    (accept disk e chunk).2 = (e, disk) ∨
      ∃ i : ChunkIndex, chunk.chunkIndex.toNat = i.val ∧ e.verifyChunk disk i = false := by
  by_cases hlt : chunk.chunkIndex.toNat < chunkCount
  · cases hv : e.verifyChunk disk chunk.chunkIndex.toNat with
    | true => exact .inl (by rw [accept_of_verified hv])
    | false => exact .inr ⟨⟨_, hlt⟩, rfl, hv⟩
  · exact .inl (by rw [accept_of_le (Nat.le_of_not_lt hlt)])

/-- A chunk that is missing is written if it has the size, once the file is open. -/
theorem accept_of_openFile {e' : Entry} (hi : chunk.chunkIndex.toNat = i.val)
    (hv : e.verifyChunk disk i = false) (ho : e.openFile disk = (.ok (), e', disk')) :
    accept disk e chunk = if chunk.declaredSize.toNat = (e.descriptor.range i).length.toNat ∧
        chunk.data.length = (e.descriptor.range i).length.toNat
      then (.stored, e', e'.put disk' (e.descriptor.range i) 0 chunk.data)
      else (.sizeMismatch (e.descriptor.range i).length.toNat chunk.declaredSize, e', disk') := by
  rw [← hi] at hv
  simp only [accept, hv, Entry.openChunk, Descriptor.chunkRange?_of_eq hi, ho, Except.map,
    Bool.false_eq_true, if_false]
  by_cases hs : chunk.declaredSize.toNat = (e.descriptor.range i).length.toNat
  · by_cases hl : chunk.data.length = (e.descriptor.range i).length.toNat
    · simp [hs, hl]
    · simp [hs, hl]
  · simp [hs, Ne.symm hs]

theorem accept_of_refused {e' : Entry} {cause : StoreError} (hi : chunk.chunkIndex.toNat = i.val)
    (hv : e.verifyChunk disk i = false) (ho : e.openFile disk = (.error cause, e', disk')) :
    accept disk e chunk = (.failed, e', disk') := by
  rw [← hi] at hv
  simp only [accept, hv, Entry.openChunk, Descriptor.chunkRange?_of_eq hi, ho, Except.map,
    Bool.false_eq_true, if_false]

/-- A chunk that is missing changes no other chunk, and its own only to what arrived. -/
theorem accept_effect (hi : chunk.chunkIndex.toNat = i.val) (hv : e.verifyChunk disk i = false)
    (ho : e.Opens disk disk' id) : ∃ disk'', (accept disk e chunk).2 = (e.opened id, disk'') ∧
      (e.opened id).Backed disk'' id ∧
      (∀ j, i ≠ j → e.descriptor.chunkOf (disk''.content id) j =
        e.descriptor.chunkOf (disk'.content id) j) ∧
      (e.descriptor.chunkOf (disk''.content id) i = e.descriptor.chunkOf (disk'.content id) i ∨
        e.descriptor.chunkOf (disk''.content id) i = chunk.data) ∧
      (e.descriptor.Fits i chunk → (accept disk e chunk).1 = .stored ∧
        e.descriptor.chunkOf (disk''.content id) i = chunk.data) := by
  rw [accept_of_openFile hi hv ho.openFile]
  split
  · rename_i hs
    have hcontent := Entry.content_put (r := e.descriptor.range i) disk'
      (rfl : (e.opened id).mapping = some id) hs.2
    have hself : e.descriptor.chunkOf
        (((e.opened id).put disk' (e.descriptor.range i) 0 chunk.data).content id) i =
        chunk.data := by
      rw [hcontent]
      exact Descriptor.chunkOf_overwrite_self ho.backed.length_content hs.2
    refine ⟨_, rfl, ho.backed.put rfl _ _ _, fun j hij => ?_, .inr hself, fun _ => ⟨rfl, hself⟩⟩
    rw [hcontent]
    exact Descriptor.chunkOf_overwrite_of_ne hij hs.2
  · rename_i hs
    exact ⟨disk', rfl, ho.backed, fun _ _ => rfl, .inl rfl,
      fun hf => absurd ⟨hf.declared, hf.length⟩ hs⟩

/-- A chunk that carries what was declared is verified afterwards. -/
theorem verifyChunk_accept {c : Bytes} (ho : e.Opens disk disk' id)
    (hc : e.descriptor.Carries c i chunk) (hlen : c.length = e.descriptor.size.toNat)
    (hm : e.descriptor.Matches c i) :
    ((accept disk e chunk).1 = .stored ∨ (accept disk e chunk).1 = .alreadyVerified) ∧
      (accept disk e chunk).2.1.verifyChunk (accept disk e chunk).2.2 i = true := by
  cases hv : e.verifyChunk disk i with
  | true =>
    rw [accept_of_verified (by rw [hc.index, hv])]
    exact ⟨.inr rfl, hv⟩
  | false =>
    obtain ⟨disk'', haccept, hbacked, -, -, hfits⟩ := accept_effect hc.index hv ho
    obtain ⟨hstored, hself⟩ := hfits (hc.fits hlen)
    rw [haccept]
    refine ⟨.inl hstored, (hbacked.verifyChunk_iff i).2 ?_⟩
    show ContentHash.ofContent (e.descriptor.chunkOf (disk''.content id) i) = _
    rw [hself, hc.data]
    exact hm

/-- A chunk for a known file goes to its entry. -/
theorem deliver_of_lookup {s : Store} {e' : Entry} {outcome : DeliveryOutcome}
    (h : s.lookup chunk.hash = some e) (ha : accept disk e chunk = (outcome, e', disk')) :
    deliver disk s chunk = (outcome, disk', s.modify chunk.hash fun _ => e') := by
  simp only [deliver, h, ha]

/-! ## Runs with a file -/

/-- The entry has its file, and each chunk is one of the content `prior` or one of those that
arrived. -/
structure Fills (d : Descriptor) (path : String) (id : FileId) (prior : Bytes)
    (chunks : List ChunkData) (s : Entry × Disk) : Prop where
  backed : s.1.Backed s.2 id
  descriptor : s.1.descriptor = d
  backingPath : s.1.backingPath = path
  chunkOf : ∀ i, d.chunkOf (s.2.content id) i = d.chunkOf prior i ∨
    ∃ chunk ∈ chunks, d.chunkOf (s.2.content id) i = chunk.data

/-- What a run leaves of a file: in addition, each chunk that was verified is the same. -/
structure Keeps (id : FileId) (chunks : List ChunkData) (s s' : Entry × Disk) : Prop extends
    Fills s.1.descriptor s.1.backingPath id (s.2.content id) chunks s' where
  kept : ∀ i, s.1.descriptor.Matches (s.2.content id) i →
    s.1.descriptor.chunkOf (s'.2.content id) i = s.1.descriptor.chunkOf (s.2.content id) i

theorem Fills.trans {d : Descriptor} {path : String} {prior : Bytes}
    {chunks chunks' : List ChunkData} {s s' : Entry × Disk} (h : Fills d path id prior chunks s)
    (h' : Keeps id chunks' s s') :
    Fills d path id prior (chunks ++ chunks') s' where
  backed := h'.backed
  descriptor := h'.descriptor.trans h.descriptor
  backingPath := h'.backingPath.trans h.backingPath
  chunkOf := by
    intro i
    have h'i := h'.chunkOf i
    rw [h.descriptor] at h'i
    rcases h'i with heq | ⟨chunk, hm, heq⟩
    · rcases h.chunkOf i with hprior | ⟨chunk, hm, hchunk⟩
      · exact .inl (heq.trans hprior)
      · exact .inr ⟨chunk, List.mem_append_left _ hm, heq.trans hchunk⟩
    · exact .inr ⟨chunk, List.mem_append_right _ hm, heq⟩

namespace Keeps

variable {chunks chunks' : List ChunkData} {s s' s'' : Entry × Disk}

theorem refl (h : s.1.Backed s.2 id) : Keeps id [] s s :=
  ⟨⟨h, rfl, rfl, fun _ => .inl rfl⟩, fun _ _ => rfl⟩

theorem of_content_eq (h : s'.1.Backed s'.2 id) (hd : s'.1.descriptor = s.1.descriptor)
    (hp : s'.1.backingPath = s.1.backingPath) (hc : s'.2.content id = s.2.content id) :
    Keeps id chunks s s' :=
  ⟨⟨h, hd, hp, fun i => .inl (by rw [hc])⟩, fun i _ => by rw [hc]⟩

theorem trans (h : Keeps id chunks s s') (h' : Keeps id chunks' s' s'') :
    Keeps id (chunks ++ chunks') s s'' := by
  refine ⟨h.toFills.trans h', ?_⟩
  intro i hm
  have hkept := h.kept i hm
  have hm' : s'.1.descriptor.Matches (s'.2.content id) i := by
    rw [h.descriptor, Descriptor.Matches, hkept]
    exact hm
  have hkept' := h'.kept i hm'
  rw [h.descriptor] at hkept'
  exact hkept'.trans hkept

/-- What was verified is verified. -/
theorem verifyChunk (h : Keeps id chunks s s') (hs : s.1.Backed s.2 id)
    (hv : s.1.verifyChunk s.2 i = true) : s'.1.verifyChunk s'.2 i = true := by
  have hm := (hs.verifyChunk_iff i).1 hv
  rw [h.backed.verifyChunk_iff, h.descriptor, Descriptor.Matches, h.kept i hm]
  exact hm

/-- A check finds what it found, if a file that matches as a whole matches in every chunk. -/
theorem has_verify (h : Keeps id chunks s s') (hs : s.1.Backed s.2 id)
    (hwhole : .ofContent (s.2.content id) = s.1.descriptor.hash →
      ∀ i, s.1.descriptor.Matches (s.2.content id) i)
    (hv : (s.1.verify s.2).has i = true) : (s'.1.verify s'.2).has i = true := by
  have hm : s.1.descriptor.Matches (s.2.content id) i :=
    ((hs.has_verify i).1 hv).elim (fun hw => hwhole hw i) fun hm => hm
  have hchunk := h.verifyChunk hs ((hs.verifyChunk_iff i).2 hm)
  exact (Entry.has_verify _ _ i).2 (.inr hchunk)

end Keeps

theorem keeps_accept (h : e.Backed disk id) (chunk : ChunkData) :
    Keeps id [chunk] (e, disk) (accept disk e chunk).2 := by
  rcases accept_eq_or_missing disk e chunk with hsame | ⟨i, hi, hv⟩
  · rw [hsame]
    exact .of_content_eq h rfl rfl rfl
  · obtain ⟨disk', ho, hsame⟩ := h.opens
    obtain ⟨disk'', haccept, hbacked, hother, hself, -⟩ := accept_effect hi hv ho
    rw [haccept]
    rw [hsame] at hother hself
    refine ⟨⟨hbacked, rfl, rfl, fun j => ?_⟩, fun j hj => ?_⟩
    · by_cases hij : i = j
      · subst hij
        exact hself.imp_right fun heq => ⟨chunk, List.mem_singleton_self _, heq⟩
      · exact .inl (hother j hij)
    · -- The chunk that is written was missing, so it is not one that matched.
      refine hother j ?_
      rintro rfl
      rw [(h.verifyChunk_iff i).2 hj] at hv
      cases hv

theorem keeps_apply {s : Entry × Disk} (h : s.1.Backed s.2 id) (event : Event) :
    Keeps id (arrivals [event]) s (event.apply s) := by
  cases event with
  | accept chunk => exact keeps_accept h chunk
  | save => exact .of_content_eq h.save rfl rfl (Entry.content_save s.2 s.1 id)
  | verify => exact .refl h

theorem arrivals_append (events events' : List Event) :
    arrivals (events ++ events') = arrivals events ++ arrivals events' := List.filterMap_append

theorem arrivals_cons (event : Event) (events : List Event) :
    arrivals (event :: events) = arrivals [event] ++ arrivals events :=
  arrivals_append [event] events

/-- A run keeps every chunk that was verified. -/
theorem keeps_run {s : Entry × Disk} (h : s.1.Backed s.2 id) (events : List Event) :
    Keeps id (arrivals events) s (run events s) := by
  induction events generalizing s with
  | nil => exact .refl h
  | cons event events ih =>
    have hstep := keeps_apply h event
    rw [arrivals_cons]
    exact hstep.trans (ih hstep.backed)

end Relay

end FileMesh
