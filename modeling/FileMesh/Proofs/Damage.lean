import FileMesh.Proofs.Completion
import FileMesh.Proofs.Sharing

/-!
# What a check says of a damaged file

A file that is shared is described by its bytes. Later the file behind an entry with that
description may have been changed, cut short, extended or removed. If no two contents in play have
the same hash, a check finds exactly the chunks that are still there: what is behind the entry has
all of the chunk and agrees with the shared bytes on it. It makes no difference whether the check
looks at the whole file, at a single chunk, at a mapping or at a path.
-/

namespace FileMesh

/-- Contents of which no two hashes look the same have no two hashes that are the same. -/
theorem ContentHash.collisionFree_of_nodup {α : Type} (f : ContentHash → α) {l l' : List Bytes}
    (hsub : ∀ b ∈ l, b ∈ l') (h : (l'.map fun b => f (.ofContent b)).Nodup) :
    CollisionFree l := by
  intro a ha b hb hab
  exact List.inj_on_of_nodup_map h (hsub a ha) (hsub b hb) (congrArg f hab)

/-! ## Descriptions -/

namespace Descriptor

variable {d : Descriptor} {b c x : Bytes} {i j : ChunkIndex}

/-- The content is large enough to be shared, the size and the hashes are its own, and every chunk
of it can be sought. -/
structure Describes (d : Descriptor) (c : Bytes) : Prop where
  smallest_le : StoreError.smallestFile ≤ c.length
  size : d.size.toNat = c.length
  hash : d.hash = .ofContent c
  chunkHashes : ∀ i, d.Matches c i
  start_le : ∀ i, (d.range i).start.toNat ≤ Disk.largestOffset

/-- The content `x` has all of chunk `i` and agrees with `b` on it. -/
structure AgreesAt (d : Descriptor) (b x : Bytes) (i : ChunkIndex) : Prop where
  stop_le : (d.range i).stop.toNat ≤ x.length
  getElem? : ∀ k, (d.range i).start.toNat ≤ k → k < (d.range i).stop.toNat → x[k]? = b[k]?

/-- The content `x` is `b` with other bytes inside chunk `j`. -/
structure ChangedAt (d : Descriptor) (b x : Bytes) (j : ChunkIndex) : Prop where
  length : x.length = b.length
  ne : x ≠ b
  getElem? : ∀ k, k < (d.range j).start.toNat ∨ (d.range j).stop.toNat ≤ k → x[k]? = b[k]?

/-- A content and its chunks. -/
def inPlay (d : Descriptor) (b : Bytes) : List Bytes := b :: ChunkIndex.all.map (d.chunkOf b)

theorem mem_inPlay (d : Descriptor) (b : Bytes) : b ∈ d.inPlay b := List.mem_cons_self

theorem chunkOf_mem_inPlay (d : Descriptor) (b : Bytes) (i : ChunkIndex) :
    d.chunkOf b i ∈ d.inPlay b :=
  List.mem_cons_of_mem _ (List.mem_map_of_mem (VerifiedChunks.mem_chunkIndex_all i))

theorem size_div_le_length (d : Descriptor) (i : ChunkIndex) :
    d.size.toNat / 8 ≤ (d.range i).length.toNat := by
  have hadd := ChunkRange.start_add_length d.size i
  rw [ChunkRange.toNat_start, ChunkRange.toNat_stop] at hadd
  rw [range]
  split at hadd
  · rename_i hi
    rw [hi] at hadd
    omega
  · rw [Nat.mul_add] at hadd
    omega

/-- Every chunk of a content that can be shared has bytes. -/
theorem Describes.length_pos (h : d.Describes c) (i : ChunkIndex) :
    0 < (d.range i).length.toNat := by
  have hdiv := d.size_div_le_length i
  have hlarge : 512 ≤ c.length := h.smallest_le
  rw [h.size] at hdiv
  omega

theorem agreesAt_iff : d.AgreesAt c x i ↔
    (d.range i).stop.toNat ≤ x.length ∧ d.chunkOf x i = d.chunkOf c i := by
  have hstop := d.start_add_length i
  constructor
  · intro h
    refine ⟨h.stop_le, ?_⟩
    apply List.ext_getElem?
    intro k
    simp only [chunkOf, Bytes.getElem?_slice]
    by_cases hk : k < (d.range i).length.toNat
    · rw [if_pos hk, if_pos hk]
      exact h.getElem? _ (by omega) (by omega)
    · rw [if_neg hk, if_neg hk]
  · intro h
    refine ⟨h.1, ?_⟩
    intro k hstart hk
    have hat := congrArg (·[k - (d.range i).start.toNat]?) h.2
    have hlt : k - (d.range i).start.toNat < (d.range i).length.toNat := by omega
    simpa only [chunkOf, Bytes.getElem?_slice, if_pos hlt, Nat.add_sub_cancel' hstart] using hat

/-- A content agrees with itself. -/
theorem Describes.agreesAt (h : d.Describes c) (i : ChunkIndex) : d.AgreesAt c c i := by
  have hle := d.range_le i
  have hstop := d.start_add_length i
  have hsize := h.size
  exact agreesAt_iff.2 ⟨by omega, rfl⟩

/-- A change inside one chunk is a change of that chunk only. -/
theorem ChangedAt.agreesAt_iff (h : d.ChangedAt c x j) (hd : d.Describes c) :
    d.AgreesAt c x i ↔ i ≠ j := by
  constructor
  · rintro hi rfl
    apply h.ne
    apply List.ext_getElem?
    intro k
    by_cases hk : (d.range i).start.toNat ≤ k ∧ k < (d.range i).stop.toNat
    · exact hi.getElem? k hk.1 hk.2
    · exact h.getElem? k (by omega)
  · intro hij
    refine ⟨h.length ▸ (hd.agreesAt i).stop_le, ?_⟩
    intro k hstart hstop
    apply h.getElem?
    rcases Nat.lt_or_gt_of_ne (Fin.val_ne_of_ne hij) with hlt | hgt
    · have hle := d.stop_le_start (i := i) (j := j) hlt
      omega
    · have hle := d.stop_le_start (i := j) (j := i) hgt
      omega

/-- Of a content that was cut short, the chunks in front of the cut are there. -/
theorem Describes.agreesAt_take_iff (h : d.Describes c) (n : Nat) :
    d.AgreesAt c (c.take n) i ↔ (d.range i).stop.toNat ≤ n := by
  have hle := (h.agreesAt i).stop_le
  constructor
  · intro hi
    have hstop := hi.stop_le
    rw [List.length_take] at hstop
    omega
  · intro hstop
    refine ⟨by rw [List.length_take]; omega, ?_⟩
    intro k _ hk
    rw [List.getElem?_take, if_pos (by omega)]

/-- The description of a file is that of its bytes. -/
theorem describes_of_describe {s : Store} {disk : Disk} {id : FileId} {name : String}
    (hsize : (disk.content id).length ≤ Disk.largestOffset)
    (h : s.describe disk (.file id) name = .ok d) : d.Describes (disk.content id) := by
  have hoffset : Disk.largestOffset < 2 ^ 64 := by decide
  obtain ⟨hlarge, -, rfl⟩ := (Store.describe_file_eq_ok_iff hsize).1 h
  have hlength := size_ofContent name (c := disk.content id) (by omega)
  exact {
    smallest_le := hlarge
    size := hlength
    hash := rfl
    chunkHashes := matches_ofContent name _
    start_le := fun i => by
      have hle := (ofContent name (disk.content id)).range_le i
      omega }

end Descriptor

/-! ## Checks -/

namespace Entry

variable {disk disk' : Disk} {e e' : Entry} {c x : Bytes} {i : ChunkIndex}

/-- A chunk can be read exactly if what is behind the entry has all of it. -/
theorem chunk?_eq_some_iff (h : e.descriptor.Describes c)
    (hsized : ∀ id, e.mapping = some id → (disk.content id).length = e.size) {b : Bytes} :
    e.chunk? disk i = some b ↔ ∃ x, e.held? disk = some x ∧
      (e.descriptor.range i).stop.toNat ≤ x.length ∧ b = e.descriptor.chunkOf x i := by
  have hpos := h.length_pos i
  have hstop := e.descriptor.start_add_length i
  have hle := e.descriptor.range_le i
  rw [chunk?, held?]
  cases hm : e.mapping with
  | some id =>
    have hlen : (disk.content id).length = e.descriptor.size.toNat := hsized id hm
    have hrange : rangeOf (disk.file id) (e.descriptor.range i) =
        e.descriptor.chunkOf (disk.content id) i :=
      FileContent.range_eq_slice _ (by rw [← disk.length_content]; omega)
    simp only [hrange, Option.some.injEq, exists_eq_left']
    constructor
    · rintro rfl
      exact ⟨by omega, rfl⟩
    · rintro ⟨-, rfl⟩
      rfl
  | none =>
    rw [bytes?]
    cases e.path with
    | none => simp
    | some path =>
      simp only [Option.map_some, Option.bind_some, toOption_eq_some_iff, Disk.read_eq_ok_iff]
      cases disk.openToRead path with
      | error cause => simp
      | ok kind =>
        cases kind with
        | directory => simp [Nat.ne_of_gt hpos]
        | file id =>
          have hstart := h.start_le i
          simp only [Except.ok.injEq, NodeKind.file.injEq, exists_eq_left']
          by_cases hin : (e.descriptor.range i).stop.toNat ≤ (disk.content id).length
          · rw [if_pos ⟨hstart, by omega⟩]
            simp [hin, eq_comm]
          · rw [if_neg (by omega)]
            simp [hin]

/-- A file that matches as a whole has the declared size and the declared hash. -/
theorem exists_held_of_wholeMatches
    (hsized : ∀ id, e.mapping = some id → (disk.content id).length = e.size)
    (hw : e.WholeMatches disk) :
    ∃ x, e.held? disk = some x ∧ .ofContent x = e.descriptor.hash := by
  cases hm : e.mapping with
  | some id =>
    have hmaps : e.Maps disk id := ⟨hm, (hsized id hm).ge⟩
    rw [hmaps.wholeMatches_iff, ← hsized id hm, List.take_length] at hw
    exact ⟨_, hmaps.held?_eq, hw⟩
  | none =>
    rw [WholeMatches, hm] at hw
    obtain ⟨path, id, hp, ho, -, hhash⟩ := hw
    have hread : disk.read path = .ok (disk.content id) := Disk.read_eq_ok_iff.2 ⟨id, ho, rfl⟩
    refine ⟨disk.content id, ?_, hhash⟩
    rw [held?, hm, bytes?, hp, Option.bind_some, hread]
    rfl

section

variable (h : e.descriptor.Describes c)
  (hsized : ∀ id, e.mapping = some id → (disk.content id).length = e.size)
  (hfree : ContentHash.CollisionFree
    (e.descriptor.inPlay c ++ (e.held? disk).toList.flatMap e.descriptor.inPlay))
include h hsized hfree

/-- A check of one chunk finds it exactly if it is still there. -/
theorem verifyChunk_iff_agreesAt (i : ChunkIndex) : e.verifyChunk disk i = true ↔
    ∃ x, e.held? disk = some x ∧ e.descriptor.AgreesAt c x i := by
  rw [verifyChunk_iff]
  simp only [chunk?_eq_some_iff h hsized, Descriptor.agreesAt_iff]
  constructor
  · rintro ⟨_, ⟨x, hx, hstop, rfl⟩, hhash⟩
    refine ⟨x, hx, hstop, ?_⟩
    have hmem : e.descriptor.chunkOf x i ∈
        (e.held? disk).toList.flatMap e.descriptor.inPlay := by
      rw [hx]
      simpa using e.descriptor.chunkOf_mem_inPlay x i
    exact hfree _ (List.mem_append_right _ hmem) _
      (List.mem_append_left _ (e.descriptor.chunkOf_mem_inPlay c i))
      (hhash.trans (h.chunkHashes i).symm)
  · rintro ⟨x, hx, hstop, hsame⟩
    refine ⟨_, ⟨x, hx, hstop, rfl⟩, ?_⟩
    rw [hsame]
    exact h.chunkHashes i

/-- A check of the whole file finds exactly the chunks that are still there. -/
theorem has_verify_iff_agreesAt (i : ChunkIndex) : (e.verify disk).has i = true ↔
    ∃ x, e.held? disk = some x ∧ e.descriptor.AgreesAt c x i := by
  rw [has_verify, verifyChunk_iff_agreesAt h hsized hfree]
  refine or_iff_right_of_imp ?_
  intro hw
  obtain ⟨x, hx, hhash⟩ := exists_held_of_wholeMatches hsized hw
  have hmem : x ∈ (e.held? disk).toList.flatMap e.descriptor.inPlay := by
    rw [hx]
    simpa using e.descriptor.mem_inPlay x
  obtain rfl : x = c := hfree _ (List.mem_append_right _ hmem) _
    (List.mem_append_left _ (e.descriptor.mem_inPlay c)) (hhash.trans h.hash)
  exact ⟨x, hx, h.agreesAt i⟩

/-- The check depends on the bytes behind the entry alone, not on the way to them. -/
theorem verify_eq_of_held?_eq (hdesc : e'.descriptor = e.descriptor)
    (hsized' : ∀ id, e'.mapping = some id → (disk'.content id).length = e'.size)
    (hheld : e'.held? disk' = e.held? disk) : e'.verify disk' = e.verify disk := by
  have h' : e'.descriptor.Describes c := by rwa [hdesc]
  have hfree' : ContentHash.CollisionFree
      (e'.descriptor.inPlay c ++ (e'.held? disk').toList.flatMap e'.descriptor.inPlay) := by
    rwa [hdesc, hheld]
  apply VerifiedChunks.ext_has
  intro i
  rw [Bool.eq_iff_iff, has_verify_iff_agreesAt h' hsized' hfree',
    has_verify_iff_agreesAt h hsized hfree, hdesc, hheld]

end

/-- Let an entry have the description of a file `c`, whose last byte still has an offset, and let no
two contents among `c`, what is behind the entry now and their chunks have the same hash. Then a
check of the entry, and so the check of a single chunk, finds exactly the chunks of which what is
behind the entry has every byte of `c`. Changing bytes inside one chunk loses that chunk alone,
cutting the file short loses the chunks that are cut into, and wherever the same bytes are checked
again the result is the same. -/
theorem verify_exact {s : Store} {disk₀ : Disk} {id₀ : FileId} {name : String}
    (hsize : (disk₀.content id₀).length ≤ Disk.largestOffset)
    (hd : s.describe disk₀ (.file id₀) name = .ok e.descriptor)
    (hsized : ∀ id, e.mapping = some id → (disk.content id).length = e.size)
    (hfree : ContentHash.CollisionFree (e.descriptor.inPlay (disk₀.content id₀) ++
      (e.held? disk).toList.flatMap e.descriptor.inPlay)) :
    (∀ i : ChunkIndex, ((e.verify disk).has i = true ↔
        ∃ x, e.held? disk = some x ∧ e.descriptor.AgreesAt (disk₀.content id₀) x i) ∧
      (e.verifyChunk disk i = true ↔
        ∃ x, e.held? disk = some x ∧ e.descriptor.AgreesAt (disk₀.content id₀) x i)) ∧
    (∀ (x : Bytes) (j : ChunkIndex), e.held? disk = some x →
      e.descriptor.ChangedAt (disk₀.content id₀) x j →
      ∀ i : ChunkIndex, (e.verify disk).has i = true ↔ i ≠ j) ∧
    (∀ n : Nat, e.held? disk = some ((disk₀.content id₀).take n) →
      ∀ i : ChunkIndex, (e.verify disk).has i = true ↔ (e.descriptor.range i).stop.toNat ≤ n) ∧
    (∀ (e' : Entry) (disk' : Disk), e'.descriptor = e.descriptor →
      (∀ id, e'.mapping = some id → (disk'.content id).length = e'.size) →
      e'.held? disk' = e.held? disk → e'.verify disk' = e.verify disk) := by
  have h := Descriptor.describes_of_describe hsize hd
  have hverify := has_verify_iff_agreesAt h hsized hfree
  have hheld {x : Bytes} (hx : e.held? disk = some x) (i : ChunkIndex) :
      (e.verify disk).has i = true ↔ e.descriptor.AgreesAt (disk₀.content id₀) x i := by
    rw [hverify, hx]
    simp only [Option.some.injEq, exists_eq_left']
  refine ⟨?_, ?_, ?_, ?_⟩
  · intro i
    exact ⟨hverify i, verifyChunk_iff_agreesAt h hsized hfree i⟩
  · intro x j hx hchanged i
    rw [hheld hx, hchanged.agreesAt_iff h]
  · intro n hx i
    rw [hheld hx, h.agreesAt_take_iff]
  · intro e' disk' hdesc hsized' hsame
    exact verify_eq_of_held?_eq h hsized hfree hdesc hsized' hsame

/-- A file of 512 zeros is described and then cut to 100. Only its first chunk is still there. -/
theorem verify_exact_cut : ∃ disk disk' : Disk,
    Disk.empty.write "f" (Bytes.zeros 512) = .ok disk ∧
    disk.write "f" (Bytes.zeros 100) = .ok disk' ∧
    (Store.empty "").describe disk (.file 0) "f" = .ok (.ofContent "f" (Bytes.zeros 512)) ∧
    ∀ i : ChunkIndex,
      ((Entry.ofFile (.ofContent "f" (Bytes.zeros 512)) "f").verify disk').has i = true ↔
        i = 0 := by
  have hwrite : ∃ disk disk', Disk.empty.write "f" (Bytes.zeros 512) = .ok disk ∧
      disk.write "f" (Bytes.zeros 100) = .ok disk' ∧ disk'.openToRead "f" = .ok (.file 0) ∧
      disk.content 0 = Bytes.zeros 512 ∧ disk'.content 0 = Bytes.zeros 100 :=
    ⟨_, _, rfl, rfl, rfl, by decide +kernel, by decide +kernel⟩
  obtain ⟨disk, disk', hw, hw', ho, hc, hc'⟩ := hwrite
  have hs : (Descriptor.ofContent "f" (Bytes.zeros 512)).size = 512 := by decide +kernel
  have hsize : (disk.content 0).length ≤ Disk.largestOffset := by
    rw [hc, Bytes.length_zeros]
    decide
  have hd : (Store.empty "").describe disk (.file 0) "f" =
      .ok (.ofContent "f" (Bytes.zeros 512)) := by
    rw [Store.describe_file_eq_ok_iff hsize, hc]
    have hnew : (Store.empty "").contains (.ofContent (Bytes.zeros 512)) = false := by
      rw [Store.contains, Table.contains_eq_isSome_get?, ← Store.lookup, Store.lookup_empty]
      rfl
    exact ⟨by rw [Bytes.length_zeros]; decide, hnew, rfl⟩
  have hheld : (Entry.ofFile (.ofContent "f" (Bytes.zeros 512)) "f").held? disk' =
      some (Bytes.zeros 100) := by
    have hread : disk'.read "f" = .ok (Bytes.zeros 100) := Disk.read_eq_ok_iff.2 ⟨0, ho, hc'.symm⟩
    show (disk'.read "f").toOption = _
    rw [hread]
    rfl
  have hheads : ([Bytes.zeros 512, .zeros 100, .zeros 64, .zeros 36, []] : List Bytes).map
      (fun b => (ContentHash.ofContent b).bytes.head!) = [191, 172, 77, 36, 175] := by
    simp only [List.map_cons, List.map_nil, Relay.ofContent_zeros]
    decide +kernel
  have hnodup : (([Bytes.zeros 512, .zeros 100, .zeros 64, .zeros 36, []] : List Bytes).map
      fun b => (ContentHash.ofContent b).bytes.head!).Nodup := by
    rw [hheads]
    decide
  have hfree : ContentHash.CollisionFree
      ((Descriptor.ofContent "f" (Bytes.zeros 512)).inPlay (disk.content 0) ++
        ((Entry.ofFile (.ofContent "f" (Bytes.zeros 512)) "f").held? disk').toList.flatMap
          (Descriptor.ofContent "f" (Bytes.zeros 512)).inPlay) := by
    rw [hheld, hc]
    refine ContentHash.collisionFree_of_nodup (fun h => h.bytes.head!) ?_ hnodup
    decide +kernel
  obtain ⟨-, -, hcut, -⟩ := verify_exact
    (e := .ofFile (.ofContent "f" (Bytes.zeros 512)) "f") hsize hd
    (fun id hid => by cases hid) hfree
  refine ⟨disk, disk', hw, hw', hd, ?_⟩
  intro i
  have htake : (disk.content 0).take 100 = Bytes.zeros 100 := by
    rw [hc]
    exact List.take_replicate
  rw [hcut 100 (by rw [hheld, htake])]
  show ((Descriptor.ofContent "f" (Bytes.zeros 512)).range i).stop.toNat ≤ 100 ↔ i = 0
  rw [Descriptor.range, hs]
  revert i
  decide

end Entry

end FileMesh
