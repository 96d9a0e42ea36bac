import FileMesh.Proofs.Table.FirstWins
import FileMesh.Proofs.Table.Update
import FileMesh.Store

/-!
# What is in a store

A store finds the entry that was added under a hash, as it was last changed. This rests on the
invariant of its table, which adding and changing keep.
-/

namespace FileMesh.Store

variable {s t : Store} {e : Entry}

/-- The table is valid and less than half full. -/
structure Valid (s : Store) : Prop where
  table : s.table.Valid
  roomy : s.table.Roomy

theorem valid_empty (downloadDir : String) : (empty downloadDir).Valid :=
  ⟨Table.follows_empty.valid, Table.follows_empty.roomy⟩

theorem lookup_empty (downloadDir : String) (hash : ContentHash) :
    (empty downloadDir).lookup hash = none := by
  have h := Table.follows_empty.get?_eq (α := Entry) hash
  rw [lookup, empty, h, Table.firstValue]
  split <;> rfl

theorem insert_eq_ok_iff : s.insert e = .ok t ↔ e.descriptor.nameLength ≤ nameWidth ∧
    ∃ table, s.table.insert e.descriptor.hash e = .ok table ∧ t = { s with table } := by
  rw [insert]
  by_cases hn : nameWidth < e.descriptor.nameLength
  · simp [hn, Nat.not_le.2 hn]
  · rw [if_neg hn]
    cases s.table.insert e.descriptor.hash e with
    | ok table => simp [Nat.le_of_not_lt hn, eq_comm]
    | error cause => cases cause <;> simp

namespace Valid

/-- What an accepted entry does to the table. -/
theorem perm_insert (h : s.Valid) (hi : s.insert e = .ok t) :
    t.Valid ∧ t.table.toList.Perm ((e.descriptor.hash, e) :: s.table.toList) := by
  obtain ⟨-, table, htable, rfl⟩ := insert_eq_ok_iff.1 hi
  by_cases hz : e.descriptor.hash = .zero
  · rw [hz, Table.insert_zero] at htable
    cases htable
  · by_cases hk : e.descriptor.hash ∈ s.table.toList.map Prod.fst
    · rw [Table.insert_of_contains hz (h.table.contains_iff.2 hk)] at htable
      cases htable
    · obtain ⟨u, hu, hv, hr, hp⟩ := Table.insert_of_absent h.table h.roomy hz hk e
      rw [htable, Except.ok.injEq] at hu
      subst hu
      exact ⟨⟨hv, hr⟩, hp⟩

/-- An entry with a new hash and a name that fits is accepted. -/
theorem exists_insert (h : s.Valid) (hn : e.descriptor.nameLength ≤ nameWidth)
    (hz : e.descriptor.hash ≠ .zero) (hl : s.lookup e.descriptor.hash = none) :
    ∃ t, s.insert e = .ok t := by
  have hk : e.descriptor.hash ∉ s.table.toList.map Prod.fst := by
    rw [← h.table.contains_iff, Table.contains_eq_isSome_get?]
    exact Option.not_isSome_iff_eq_none.2 hl
  obtain ⟨table, htable, -⟩ := Table.insert_of_absent h.table h.roomy hz hk e
  exact ⟨_, insert_eq_ok_iff.2 ⟨hn, table, htable, rfl⟩⟩

theorem insert (h : s.Valid) (hi : s.insert e = .ok t) : t.Valid := (h.perm_insert hi).1

/-- What is found after an entry was added: this entry, and what was found before. -/
theorem lookup_insert_iff (h : s.Valid) (hi : s.insert e = .ok t) {hash : ContentHash} {x : Entry} :
    t.lookup hash = some x ↔ hash = e.descriptor.hash ∧ x = e ∨ s.lookup hash = some x := by
  obtain ⟨hv, hp⟩ := h.perm_insert hi
  rw [lookup, hv.table.get?_eq_some_iff, hp.mem_iff, List.mem_cons, Prod.mk.injEq, lookup,
    h.table.get?_eq_some_iff]

/-- An entry that was added is found. -/
theorem lookup_insert (h : s.Valid) (hi : s.insert e = .ok t) :
    t.lookup e.descriptor.hash = some e := (h.lookup_insert_iff hi).2 (.inl ⟨rfl, rfl⟩)

theorem lookup_insert_of_ne (h : s.Valid) (hi : s.insert e = .ok t) {hash : ContentHash}
    (hne : hash ≠ e.descriptor.hash) : t.lookup hash = s.lookup hash := by
  ext x
  rw [h.lookup_insert_iff hi]
  simp [hne]

theorem add (h : s.Valid) {d : Descriptor} (ha : s.add d = .ok t) : t.Valid := h.insert ha

theorem lookup_add (h : s.Valid) {d : Descriptor} (ha : s.add d = .ok t) :
    t.lookup d.hash = some (.ofPeer d (Path.join s.downloadDir (fileName d))) :=
  h.lookup_insert ha

theorem addFile (h : s.Valid) {d : Descriptor} {path : String} (ha : s.addFile d path = .ok t) :
    t.Valid := h.insert ha

theorem saveAll (h : s.Valid) (disk : Disk) : (Store.saveAll disk s).1.Valid where
  table := h.table.map Entry.unmap
  roomy := by
    rw [Table.Roomy, Store.saveAll, Table.capacity_map]
    exact h.roomy

/-- A saved entry is found unmapped. -/
theorem lookup_saveAll (h : s.Valid) (disk : Disk) (hash : ContentHash) :
    (Store.saveAll disk s).1.lookup hash = (s.lookup hash).map Entry.unmap :=
  h.table.get?_map hash Entry.unmap

theorem modify (h : s.Valid) (hash : ContentHash) (f : Entry → Entry) :
    (s.modify hash f).Valid where
  table := h.table.modify hash f
  roomy := by
    rw [Table.Roomy, Store.modify, Table.capacity_modify, Table.size_modify]
    exact h.roomy

theorem lookup_modify (h : s.Valid) (hash k : ContentHash) (f : Entry → Entry) :
    (s.modify hash f).lookup k = if k = hash then (s.lookup k).map f else s.lookup k :=
  h.table.get?_modify hash k f

/-- An entry that was replaced is found as it is now. -/
theorem lookup_replace (h : s.Valid) {hash : ContentHash} {e e' : Entry}
    (hl : s.lookup hash = some e) : (s.modify hash fun _ => e').lookup hash = some e' := by
  rw [h.lookup_modify, if_pos rfl, hl, Option.map_some]

/-! ## What is known -/

theorem contains_iff (h : s.Valid) {hash : ContentHash} :
    s.contains hash = true ↔ hash ∈ s.table.toList.map Prod.fst := h.table.contains_iff

/-- After an entry was accepted its hash is known, and otherwise what was known. -/
theorem contains_insert (h : s.Valid) (hi : s.insert e = .ok t) (hash : ContentHash) :
    t.contains hash = true ↔ hash = e.descriptor.hash ∨ s.contains hash = true := by
  obtain ⟨hv, hp⟩ := h.perm_insert hi
  rw [hv.contains_iff, h.contains_iff, (hp.map Prod.fst).mem_iff, List.map_cons, List.mem_cons]

/-- An entry is accepted exactly if its hash is neither known nor zero and its name fits. -/
theorem exists_insert_iff (h : s.Valid) : (∃ t, s.insert e = .ok t) ↔
    e.descriptor.nameLength ≤ nameWidth ∧ e.descriptor.hash ≠ .zero ∧
      s.contains e.descriptor.hash = false := by
  constructor
  · rintro ⟨t, hi⟩
    obtain ⟨hn, table, htable, -⟩ := insert_eq_ok_iff.1 hi
    refine ⟨hn, fun hz => ?_, ?_⟩
    · rw [hz, Table.insert_zero] at htable
      cases htable
    · by_contra hc
      have hz : e.descriptor.hash ≠ .zero := by
        intro hz
        rw [hz, contains, Table.contains_zero] at hc
        exact hc rfl
      rw [Table.insert_of_contains hz (Bool.of_not_eq_false hc)] at htable
      cases htable
  · rintro ⟨hn, hz, hc⟩
    refine h.exists_insert hn hz ?_
    rw [contains, Table.contains_eq_isSome_get?] at hc
    exact Option.isSome_eq_false_iff.1 hc |> Option.isNone_iff_eq_none.1

end Valid

theorem descriptors_eq (s : Store) :
    s.descriptors = s.table.toList.map fun x => x.2.descriptor := by
  rw [descriptors, entries, Table.values, List.map_map]
  rfl

/-- Every entry is kept under the hash that its descriptor declares. -/
def Keyed (s : Store) : Prop := ∀ x ∈ s.table.toList, x.2.descriptor.hash = x.1

theorem keyed_empty (downloadDir : String) : (empty downloadDir).Keyed := by
  intro x hx
  rw [empty, Table.empty, Table.toList_withCapacity] at hx
  cases hx

/-- What is known after an entry was accepted. -/
theorem Valid.perm_descriptors (h : s.Valid) (hi : s.insert e = .ok t) :
    t.descriptors.Perm (e.descriptor :: s.descriptors) := by
  rw [descriptors_eq, descriptors_eq]
  exact (h.perm_insert hi).2.map _

theorem Valid.length_descriptors (h : s.Valid) : s.descriptors.length = s.size := by
  rw [descriptors_eq, List.length_map, size, h.table.size_eq]

theorem Keyed.insert (hk : s.Keyed) (h : s.Valid) (hi : s.insert e = .ok t) : t.Keyed := by
  intro x hx
  rcases List.mem_cons.1 ((h.perm_insert hi).2.mem_iff.1 hx) with rfl | hx
  · rfl
  · exact hk x hx

theorem Keyed.map_hash_descriptors (hk : s.Keyed) :
    s.descriptors.map Descriptor.hash = s.table.toList.map Prod.fst := by
  rw [descriptors_eq, List.map_map]
  exact List.map_congr_left hk

theorem countP_hash_eq (ds : List Descriptor) (hash : ContentHash) :
    ds.countP (·.hash = hash) = (ds.map Descriptor.hash).count hash := by
  rw [List.count, List.countP_map]
  rfl

/-- A hash that is known has a single descriptor. -/
theorem Valid.count_descriptors (h : s.Valid) (hk : s.Keyed) {hash : ContentHash}
    (hc : s.contains hash = true) : s.descriptors.countP (·.hash = hash) = 1 := by
  rw [countP_hash_eq, hk.map_hash_descriptors]
  exact List.count_eq_one_of_mem h.table.nodup_keys (h.contains_iff.1 hc)

/-- The store is sound, and everything in it has a hash and a name that fits on the wire. -/
structure Fit (s : Store) : Prop where
  valid : s.Valid
  keyed : s.Keyed
  hash_ne_zero : ∀ d ∈ s.descriptors, d.hash ≠ .zero
  nameLength_le : ∀ d ∈ s.descriptors, d.nameLength ≤ nameWidth

theorem descriptors_empty (downloadDir : String) : (empty downloadDir).descriptors = [] := by
  rw [descriptors_eq, empty, Table.empty, Table.toList_withCapacity, List.map_nil]

theorem fit_empty (downloadDir : String) : (empty downloadDir).Fit where
  valid := valid_empty downloadDir
  keyed := keyed_empty downloadDir
  hash_ne_zero := by simp [descriptors_empty]
  nameLength_le := by simp [descriptors_empty]

namespace Fit

/-- An entry that is accepted fits, since others are refused. -/
theorem insert (h : s.Fit) (hi : s.insert e = .ok t) : t.Fit := by
  obtain ⟨hname, hhash, -⟩ := h.valid.exists_insert_iff.1 ⟨t, hi⟩
  have hperm := h.valid.perm_descriptors hi
  refine ⟨h.valid.insert hi, h.keyed.insert h.valid hi, ?_, ?_⟩
  · intro d hd
    rcases List.mem_cons.1 (hperm.mem_iff.1 hd) with rfl | hd
    · exact hhash
    · exact h.hash_ne_zero d hd
  · intro d hd
    rcases List.mem_cons.1 (hperm.mem_iff.1 hd) with rfl | hd
    · exact hname
    · exact h.nameLength_le d hd

theorem nodup_hashes (h : s.Fit) : (s.descriptors.map Descriptor.hash).Nodup := by
  rw [h.keyed.map_hash_descriptors]
  exact h.valid.table.nodup_keys

theorem contains_iff (h : s.Fit) {hash : ContentHash} :
    s.contains hash = true ↔ hash ∈ s.descriptors.map Descriptor.hash := by
  rw [h.keyed.map_hash_descriptors]
  exact h.valid.contains_iff

theorem countP_hash_le_one (h : s.Fit) (hash : ContentHash) :
    s.descriptors.countP (·.hash = hash) ≤ 1 := by
  rw [countP_hash_eq]
  exact List.nodup_iff_count_le_one.1 h.nodup_hashes hash

/-- What is kept under a hash is the one descriptor with this hash. -/
theorem lookup_eq_some_iff (h : s.Fit) {hash : ContentHash} {d : Descriptor} :
    (s.lookup hash).map Entry.descriptor = some d ↔ d ∈ s.descriptors ∧ d.hash = hash := by
  rw [Option.map_eq_some_iff, descriptors_eq, List.mem_map]
  simp only [lookup, h.valid.table.get?_eq_some_iff]
  constructor
  · rintro ⟨e, he, rfl⟩
    exact ⟨⟨_, he, rfl⟩, h.keyed _ he⟩
  · rintro ⟨⟨⟨k, e⟩, he, rfl⟩, hhash⟩
    obtain rfl : k = hash := (h.keyed _ he).symm.trans hhash
    exact ⟨e, he, rfl⟩

/-- Stores with the same descriptors keep the same one under each hash. -/
theorem lookup_congr (h : s.Fit) (ht : t.Fit) (hsame : t.descriptors.Perm s.descriptors)
    (hash : ContentHash) :
    (t.lookup hash).map Entry.descriptor = (s.lookup hash).map Entry.descriptor := by
  ext d
  rw [ht.lookup_eq_some_iff, h.lookup_eq_some_iff, hsame.mem_iff]

end Fit

end FileMesh.Store
