import FileMesh.Proofs.Table.Probing
import Mathlib.Data.Finset.Card

/-!
# The first insertion wins

A table that is built by insertions is a finite map: under each key it keeps the value of the first
insertion, whatever keys collide and however often the table had to grow. Placing an absent key
keeps the invariant of the table; growing places every entry anew; so a run of insertions, accepted
or refused, stays among the valid tables.
-/

namespace FileMesh.Table

variable {α : Type} {t : Table α} {key : ContentHash} {value : α}

/-! ## Placing -/

theorem place_of_locate {i : Nat} (h : locate t.slots key = some i) :
    t.place key value = ⟨t.slots.setIfInBounds i (some (key, value)), t.size + 1⟩ := by
  rw [place, h]

@[simp] theorem capacity_place (t : Table α) (key : ContentHash) (value : α) :
    (t.place key value).capacity = t.capacity := by
  simp only [place, capacity]
  split <;> simp

@[simp] theorem probe_place (t : Table α) (key : ContentHash) (value : α) (k : ContentHash)
    (n : Nat) : probe (t.place key value).slots k n = probe t.slots k n := by
  have hsize : (t.place key value).slots.size = t.slots.size := capacity_place t key value
  rw [probe, probe, hsize]

theorem slot_place {i : Nat} (hloc : locate t.slots key = some i) (hi : i < t.capacity)
    (value : α) (j : Nat) : slot (t.place key value).slots j =
      if j = i then some (key, value) else slot t.slots j := by
  rw [place_of_locate hloc]
  exact slot_setIfInBounds hi _ j

namespace Valid

/-- Placing an absent key adds its entry and no other. -/
theorem perm_place (h : t.Valid) (hk : key ∉ t.toList.map Prod.fst) (value : α) :
    (t.place key value).toList.Perm ((key, value) :: t.toList) := by
  obtain ⟨n, -, hloc, hnone, -⟩ := h.locate_of_absent hk
  have hpos : 0 < t.slots.size := Nat.zero_lt_of_lt h.size_lt
  have hat : t.slots.toList[probe t.slots key n]? = some none := by
    have hlt : probe t.slots key n < t.slots.toList.length := by
      simpa using probe_lt hpos n
    rw [slot_eq_getElem?, List.getElem?_eq_getElem hlt] at hnone
    rw [List.getElem?_eq_getElem hlt]
    exact congrArg some hnone
  rw [place_of_locate hloc, toList, Array.toList_setIfInBounds]
  exact perm_filterMap_set (key, value) hat

/-- Placing an absent key keeps the invariant if a slot stays empty. -/
theorem place (h : t.Valid) (hz : key ≠ .zero) (hk : key ∉ t.toList.map Prod.fst)
    (hroom : t.size + 1 < t.capacity) (value : α) : (t.place key value).Valid := by
  obtain ⟨n, hn, hloc, hnone, hbefore⟩ := h.locate_of_absent hk
  have hperm := h.perm_place hk value
  have hpos : 0 < t.slots.size := Nat.zero_lt_of_lt h.size_lt
  have hslot := slot_place hloc (probe_lt hpos n) value
  -- A slot that was taken is still taken, so no walk ends earlier than before.
  have hkeep {j : Nat} (hj : slot t.slots j ≠ none) : slot (t.place key value).slots j ≠ none := by
    rw [hslot]
    split
    · simp
    · exact hj
  have hfresh {j : Nat} {e : ContentHash × α} (hj : slot t.slots j = some e) : e.1 ≠ key := by
    intro he
    exact hk (List.mem_map.2 ⟨e, mem_toList.2 ⟨j, hj⟩, he⟩)
  constructor
  case distinct =>
    intro i j e f hi hj hef
    rw [hslot] at hi hj
    split at hi <;> split at hj
    · rename_i hi' hj'
      exact hi'.trans hj'.symm
    · cases hi
      exact absurd hef.symm (hfresh hj)
    · cases hj
      exact absurd hef (hfresh hi)
    · exact h.distinct hi hj hef
  case ne_zero =>
    intro i e hi
    rw [hslot] at hi
    split at hi
    · cases hi
      exact hz
    · exact h.ne_zero hi
  case chain =>
    intro i e hi
    simp only [capacity_place, probe_place]
    rw [hslot] at hi
    split at hi
    · rename_i hi'
      cases hi
      exact ⟨n, hn, hi', fun m hm => hkeep (hbefore m hm)⟩
    · obtain ⟨m, hm, hi', hchain⟩ := h.chain hi
      exact ⟨m, hm, hi', fun j hj => hkeep (hchain j hj)⟩
  case size_eq =>
    rw [hperm.length_eq, List.length_cons, ← h.size_eq, place_of_locate hloc]
  case size_lt =>
    rwa [capacity_place, place_of_locate hloc]

end Valid

/-! ## Growing -/

/-- The table with these entries placed one after the other. -/
def placeAll (t : Table α) (entries : List (ContentHash × α)) : Table α :=
  entries.foldl (fun t (key, value) => t.place key value) t

theorem grow_eq_placeAll (t : Table α) :
    t.grow = (withCapacity (2 * t.capacity)).placeAll t.toList := rfl

/-- Placing absent keys one after the other keeps the invariant and adds their entries. -/
theorem Valid.placeAll {entries : List (ContentHash × α)} (h : t.Valid)
    (hz : ContentHash.zero ∉ entries.map Prod.fst)
    (hk : ((entries ++ t.toList).map Prod.fst).Nodup)
    (hroom : t.size + entries.length < t.capacity) :
    (t.placeAll entries).Valid ∧ (t.placeAll entries).toList.Perm (entries ++ t.toList) ∧
      (t.placeAll entries).capacity = t.capacity := by
  induction entries generalizing t with
  | nil => exact ⟨h, List.Perm.refl _, rfl⟩
  | cons e entries ih =>
    obtain ⟨key, value⟩ := e
    simp only [List.map_cons, List.mem_cons, not_or] at hz
    simp only [List.cons_append, List.map_cons, List.nodup_cons, List.length_cons] at hk hroom
    have habsent : key ∉ t.toList.map Prod.fst := fun hm => hk.1 (by
      rw [List.map_append]
      exact List.mem_append_right _ hm)
    have hv : (t.place key value).Valid := h.place (Ne.symm hz.1) habsent (by omega) value
    have hp := h.perm_place habsent value
    have hsize : (t.place key value).size = t.size + 1 := by
      rw [hv.size_eq, hp.length_eq, List.length_cons, h.size_eq]
    have hmid : (entries ++ (t.place key value).toList).Perm
        ((key, value) :: (entries ++ t.toList)) :=
      (hp.append_left entries).trans List.perm_middle
    obtain ⟨hv', hp', hc'⟩ := ih hv hz.2
      ((hmid.map Prod.fst).nodup_iff.2 (List.nodup_cons.2 hk))
      (by rw [hsize, capacity_place]; omega)
    exact ⟨hv', hp'.trans hmid, hc'.trans (capacity_place t key value)⟩

/-- Some of the entries of a table, placed anew in one of twice its capacity. -/
theorem Valid.placeAll_sublist (h : t.Valid) {entries : List (ContentHash × α)}
    (hsub : entries.Sublist t.toList) :
    ((withCapacity (2 * t.capacity)).placeAll entries).Valid ∧
      ((withCapacity (2 * t.capacity)).placeAll entries).toList.Perm entries ∧
      ((withCapacity (2 * t.capacity)).placeAll entries).capacity = 2 * t.capacity := by
  have hpos : 0 < t.capacity := Nat.zero_lt_of_lt h.size_lt
  have hroom : (withCapacity (2 * t.capacity) : Table α).size + entries.length <
      (withCapacity (2 * t.capacity) : Table α).capacity := by
    have hle := hsub.length_le
    have heq := h.size_eq
    have hlt := h.size_lt
    rw [capacity_withCapacity]
    simp only [withCapacity]
    omega
  have hfresh := (valid_withCapacity (α := α) (n := 2 * t.capacity) (by omega)).placeAll
    (fun hm => h.zero_notMem ((hsub.map Prod.fst).subset hm))
    (by rw [toList_withCapacity, List.append_nil]; exact h.nodup_keys.sublist (hsub.map Prod.fst))
    hroom
  rwa [toList_withCapacity, List.append_nil, capacity_withCapacity] at hfresh

/-- While a table grows, every table on the way is valid. -/
theorem Valid.placeAll_take (h : t.Valid) (n : Nat) :
    ((withCapacity (2 * t.capacity)).placeAll (t.toList.take n)).Valid :=
  (h.placeAll_sublist (List.take_sublist n _)).1

/-- A table that grows keeps its entries. -/
theorem Valid.grow (h : t.Valid) :
    t.grow.Valid ∧ t.grow.toList.Perm t.toList ∧ t.grow.capacity = 2 * t.capacity := by
  rw [grow_eq_placeAll]
  exact h.placeAll_sublist (List.Sublist.refl _)

/-! ## Inserting -/

/-- A table that is less than half full, and not so small that doubling leaves no room. -/
def Roomy (t : Table α) : Prop := 2 ≤ t.capacity ∧ 2 * t.size < t.capacity

theorem insert_zero (t : Table α) (value : α) : t.insert .zero value = .error .reservedHash := by
  simp [insert]

theorem insert_of_contains (hz : key ≠ .zero) (h : t.contains key = true) :
    t.insert key value = .error (.duplicate key) := by
  simp [insert, hz, h]

/-- An absent key is accepted: its entry is added, and the table stays less than half full. -/
theorem insert_of_absent (h : t.Valid) (hr : t.Roomy) (hz : key ≠ .zero)
    (hk : key ∉ t.toList.map Prod.fst) (value : α) :
    ∃ u, t.insert key value = .ok u ∧ u.Valid ∧ u.Roomy ∧
      u.toList.Perm ((key, value) :: t.toList) := by
  have hno : t.contains key = false := by
    rw [Bool.eq_false_iff, Ne, h.contains_iff]
    exact hk
  -- What the entry is placed in: the table itself, or the larger one.
  obtain ⟨w, hw, hv, hp, hroom⟩ : ∃ w : Table α, t.insert key value = .ok (w.place key value) ∧
      w.Valid ∧ w.toList.Perm t.toList ∧ 2 ≤ w.capacity ∧ 2 * (w.size + 1) < w.capacity := by
    obtain ⟨htwo, hhalf⟩ := hr
    by_cases hfull : t.capacity ≤ 2 * (t.size + 1)
    · obtain ⟨hv, hp, hc⟩ := h.grow
      refine ⟨t.grow, by simp [insert, hz, hno, hfull], hv, hp, ?_⟩
      rw [hc, hv.size_eq, hp.length_eq, ← h.size_eq]
      omega
    · exact ⟨t, by simp [insert, hz, hno, hfull], h, List.Perm.refl _, htwo, by omega⟩
  have hkw : key ∉ w.toList.map Prod.fst := fun hm => hk ((hp.map Prod.fst).mem_iff.1 hm)
  have hvu := hv.place hz hkw (by omega) value
  have hpu := hv.perm_place hkw value
  refine ⟨w.place key value, hw, hvu, ?_, hpu.trans (hp.cons _)⟩
  rw [Roomy, capacity_place, hvu.size_eq, hpu.length_eq, List.length_cons, ← hv.size_eq]
  exact hroom

/-! ## Runs -/

/-- The table after an insertion whose answer is ignored. -/
def offer (t : Table α) (e : ContentHash × α) : Table α :=
  match t.insert e.1 e.2 with
  | .ok u => u
  | .error _ => t

/-- The table after a run of insertions into a new one. -/
def ofInserts (entries : List (ContentHash × α)) : Table α := entries.foldl offer empty

/-- The value of the first insertion under a key; the zero hash has none. -/
def firstValue (entries : List (ContentHash × α)) (key : ContentHash) : Option α :=
  if key = .zero then none else entries.lookup key

theorem ofInserts_concat (entries : List (ContentHash × α)) (e : ContentHash × α) :
    ofInserts (entries ++ [e]) = (ofInserts entries).offer e := by
  rw [ofInserts, List.foldl_append]
  rfl

theorem firstValue_concat (entries : List (ContentHash × α)) (e : ContentHash × α)
    (key : ContentHash) : firstValue (entries ++ [e]) key =
      (firstValue entries key).or (if key = e.1 ∧ key ≠ .zero then some e.2 else none) := by
  obtain ⟨k, value⟩ := e
  by_cases hz : key = .zero
  · simp [firstValue, hz]
  · by_cases he : key = k
    · subst he
      simp [firstValue, List.lookup_append, hz]
    · have hb : (key == k) = false := beq_eq_false_iff_ne.2 he
      simp [firstValue, List.lookup_append, List.lookup_cons, he, hb]

/-- What holds of a table after a run: it is valid, it is less than half full, and its entries are
the first ones. -/
structure Follows (t : Table α) (entries : List (ContentHash × α)) : Prop where
  valid : t.Valid
  roomy : t.Roomy
  mem_iff : ∀ {key value}, (key, value) ∈ t.toList ↔ firstValue entries key = some value

theorem Follows.get?_eq {entries : List (ContentHash × α)} (h : t.Follows entries)
    (key : ContentHash) : t.get? key = firstValue entries key := by
  ext value
  rw [h.valid.get?_eq_some_iff, h.mem_iff]

theorem Follows.mem_keys_iff {entries : List (ContentHash × α)} (h : t.Follows entries) :
    key ∈ t.toList.map Prod.fst ↔ ∃ value, firstValue entries key = some value := by
  rw [List.mem_map]
  constructor
  · rintro ⟨⟨k, v⟩, hm, rfl⟩
    exact ⟨v, h.mem_iff.1 hm⟩
  · rintro ⟨v, hv⟩
    exact ⟨_, h.mem_iff.2 hv, rfl⟩

theorem follows_empty : (empty : Table α).Follows [] where
  valid := valid_withCapacity (by decide)
  roomy := by
    rw [Roomy, empty, capacity_withCapacity]
    exact (by decide : 2 ≤ initialCapacity ∧ 2 * 0 < initialCapacity)
  mem_iff := by
    intro key value
    rw [empty, toList_withCapacity, firstValue]
    split <;> simp

/-- One more insertion: an absent key brings its entry, and everything else is refused. -/
theorem Follows.offer {entries : List (ContentHash × α)} (h : t.Follows entries)
    (e : ContentHash × α) : (t.offer e).Follows (entries ++ [e]) := by
  obtain ⟨key, value⟩ := e
  by_cases hz : key = .zero
  · have hoff : t.offer (key, value) = t := by
      rw [Table.offer, hz, insert_zero]
    rw [hoff]
    refine ⟨h.valid, h.roomy, fun {k v} => ?_⟩
    rw [h.mem_iff, firstValue_concat, if_neg fun hk => hk.2 (hk.1.trans hz), Option.or_none]
  · by_cases hk : key ∈ t.toList.map Prod.fst
    · have hoff : t.offer (key, value) = t := by
        rw [Table.offer, insert_of_contains hz (h.valid.contains_iff.2 hk)]
      rw [hoff]
      refine ⟨h.valid, h.roomy, fun {k v} => ?_⟩
      rw [h.mem_iff, firstValue_concat]
      obtain ⟨w, hw⟩ := h.mem_keys_iff.1 hk
      by_cases hkk : k = key
      · rw [hkk, hw, Option.some_or]
      · rw [if_neg fun hc => hkk hc.1, Option.or_none]
    · obtain ⟨u, hu, hv, hr, hp⟩ := insert_of_absent h.valid h.roomy hz hk value
      have hoff : t.offer (key, value) = u := by
        rw [Table.offer, hu]
      have hnone : firstValue entries key = none :=
        Option.eq_none_iff_forall_ne_some.2 fun w hw => hk (h.mem_keys_iff.2 ⟨w, hw⟩)
      rw [hoff]
      refine ⟨hv, hr, fun {k v} => ?_⟩
      rw [hp.mem_iff, List.mem_cons, h.mem_iff, firstValue_concat]
      by_cases hkk : k = key
      · subst hkk
        simp [hnone, hz, eq_comm]
      · simp [hkk]

theorem follows_ofInserts (entries : List (ContentHash × α)) :
    (ofInserts entries).Follows entries := by
  induction entries using List.reverseRecOn with
  | nil => exact follows_empty
  | append_singleton entries e ih =>
    rw [ofInserts_concat]
    exact ih.offer e

theorem insert_eq_reserved_iff (h : t.Valid) (hr : t.Roomy) :
    t.insert key value = .error .reservedHash ↔ key = .zero := by
  constructor
  · intro he
    by_contra hz
    by_cases hk : key ∈ t.toList.map Prod.fst
    · rw [insert_of_contains hz (h.contains_iff.2 hk)] at he
      cases he
    · obtain ⟨u, hu, -⟩ := insert_of_absent h hr hz hk value
      rw [hu] at he
      cases he
  · rintro rfl
    exact insert_zero t value

theorem insert_eq_duplicate_iff (h : t.Valid) (hr : t.Roomy) {k : ContentHash} :
    t.insert key value = .error (.duplicate k) ↔ k = key ∧ key ∈ t.toList.map Prod.fst := by
  constructor
  · intro he
    by_cases hz : key = .zero
    · rw [hz, insert_zero] at he
      cases he
    · by_cases hk : key ∈ t.toList.map Prod.fst
      · rw [insert_of_contains hz (h.contains_iff.2 hk)] at he
        cases he
        exact ⟨rfl, hk⟩
      · obtain ⟨u, hu, -⟩ := insert_of_absent h hr hz hk value
        rw [hu] at he
        cases he
  · rintro ⟨rfl, hk⟩
    have hz : k ≠ .zero := fun hz => h.zero_notMem (hz ▸ hk)
    exact insert_of_contains hz (h.contains_iff.2 hk)

theorem exists_firstValue_iff {entries : List (ContentHash × α)} :
    (∃ v, firstValue entries key = some v) ↔ key ≠ .zero ∧ key ∈ entries.map Prod.fst := by
  induction entries using List.reverseRecOn with
  | nil =>
    by_cases hz : key = .zero <;> simp [firstValue, hz]
  | append_singleton entries e ih =>
    rw [firstValue_concat, List.map_append, List.mem_append, and_or_left, ← ih]
    by_cases he : key = e.1 ∧ key ≠ .zero
    · rw [if_pos he]
      cases firstValue entries key <;> simp [he.1, he.1 ▸ he.2]
    · rw [if_neg he, Option.or_none]
      constructor
      · exact Or.inl
      · rintro (hv | ⟨hz, hm⟩)
        · exact hv
        · exact absurd ⟨by simpa using hm, hz⟩ he

/-- The number of entries is the number of distinct keys offered, the zero hash left out. -/
theorem Follows.size_eq {entries : List (ContentHash × α)} (h : t.Follows entries) :
    t.size = ((entries.map Prod.fst).toFinset.erase .zero).card := by
  have hkeys : (t.toList.map Prod.fst).toFinset = (entries.map Prod.fst).toFinset.erase .zero := by
    ext key
    rw [List.mem_toFinset, h.mem_keys_iff, exists_firstValue_iff, Finset.mem_erase,
      List.mem_toFinset]
  rw [← hkeys, List.toFinset_card_of_nodup h.valid.nodup_keys, List.length_map, h.valid.size_eq]

/-- A table is the map in which the first of these insertions under a key wins. The invariant holds,
some slot is empty, and every walk ends, also in the tables that growing goes through. The first
value under a key is found and listed, no key is listed twice, and the entries are counted. The zero
hash alone is reserved, and just what was inserted before is a duplicate. -/
structure IsFirstWinsMap (t : Table α) (entries : List (ContentHash × α)) : Prop where
  valid : t.Valid
  vacant : ∃ i < t.capacity, slot t.slots i = none
  ends : t.Ends
  grow_ends : ∀ n, ((withCapacity (2 * t.capacity)).placeAll (t.toList.take n)).Ends
  get?_eq : ∀ key, t.get? key = firstValue entries key
  contains_eq : ∀ key, t.contains key = (t.get? key).isSome
  reserved_iff : ∀ key value, t.insert key value = .error .reservedHash ↔ key = .zero
  duplicate_iff : ∀ key value k, t.insert key value = .error (.duplicate k) ↔
    k = key ∧ key ≠ .zero ∧ key ∈ entries.map Prod.fst
  nodup_keys : (t.toList.map Prod.fst).Nodup
  mem_toList_iff : ∀ key value, (key, value) ∈ t.toList ↔ firstValue entries key = some value
  size_eq : t.size = ((entries.map Prod.fst).toFinset.erase .zero).card

/-- Every run of insertions into a new table builds the map in which the first insertion wins. -/
theorem isFirstWinsMap_ofInserts (entries : List (ContentHash × α)) :
    (ofInserts entries).IsFirstWinsMap entries := by
  have h := follows_ofInserts entries
  exact {
    valid := h.valid
    vacant := h.valid.exists_vacant
    ends := h.valid.ends
    grow_ends := fun n => (h.valid.placeAll_take n).ends
    get?_eq := h.get?_eq
    contains_eq := contains_eq_isSome_get? _
    reserved_iff := fun _ _ => insert_eq_reserved_iff h.valid h.roomy
    duplicate_iff := fun _ _ _ => by
      rw [insert_eq_duplicate_iff h.valid h.roomy, h.mem_keys_iff, exists_firstValue_iff]
    nodup_keys := h.valid.nodup_keys
    mem_toList_iff := fun _ _ => h.mem_iff
    size_eq := h.size_eq }

end FileMesh.Table
