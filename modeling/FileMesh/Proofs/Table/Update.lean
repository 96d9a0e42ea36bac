import FileMesh.Proofs.Table.Probing

/-!
# Changing values

The invariant of a table is one of its keys, so a table keeps it when values change. Under a key
that was changed stands the new value, and every other key has the value it had.
-/

namespace FileMesh.Table

variable {α : Type} {t u : Table α} {key : ContentHash} {i : Nat}

/-- The key in each slot. -/
def keys (t : Table α) : Array (Option ContentHash) := t.slots.map (Option.map Prod.fst)

theorem keys_getD (t : Table α) (i : Nat) : t.keys.getD i none = (slot t.slots i).map Prod.fst := by
  simp only [keys, slot, Array.getD_eq_getD_getElem?, Array.getElem?_map]
  cases t.slots[i]? <;> rfl

theorem map_fst_toList (t : Table α) : t.toList.map Prod.fst = t.keys.toList.filterMap id := by
  rw [toList, keys, List.map_filterMap, Array.toList_map, List.filterMap_map]
  rfl

namespace Valid

/-- A table with the same keys in the same slots is valid too. -/
theorem of_keys (h : t.Valid) (hk : u.keys = t.keys) (hs : u.size = t.size) : u.Valid := by
  have hsize : u.slots.size = t.slots.size := by
    have := congrArg Array.size hk
    simpa [keys] using this
  have hslot (i : Nat) : (slot u.slots i).map Prod.fst = (slot t.slots i).map Prod.fst := by
    rw [← keys_getD, hk, keys_getD]
  have hold {i : Nat} {e : ContentHash × α} (hi : slot u.slots i = some e) :
      ∃ f, slot t.slots i = some f ∧ f.1 = e.1 := by
    have hi' := hslot i
    rw [hi] at hi'
    exact Option.map_eq_some_iff.1 hi'.symm
  constructor
  case distinct =>
    intro i j e f hi hj hef
    obtain ⟨e', he', hee⟩ := hold hi
    obtain ⟨f', hf', hff⟩ := hold hj
    exact h.distinct he' hf' (by rw [hee, hff, hef])
  case ne_zero =>
    intro i e hi
    obtain ⟨e', he', hee⟩ := hold hi
    exact hee ▸ h.ne_zero he'
  case chain =>
    intro i e hi
    obtain ⟨e', he', hee⟩ := hold hi
    obtain ⟨n, hn, hin, hbefore⟩ := h.chain he'
    have hprobe (m : Nat) : probe u.slots e.1 m = probe t.slots e'.1 m := by
      rw [probe, probe, hsize, hee]
    refine ⟨n, by rwa [capacity, hsize], by rw [hprobe, hin], ?_⟩
    intro m hm
    rw [hprobe, ← Option.isSome_iff_ne_none, ← Option.isSome_map (f := Prod.fst), hslot,
      Option.isSome_map, Option.isSome_iff_ne_none]
    exact hbefore m hm
  case size_eq =>
    rw [hs, h.size_eq, ← t.toList.length_map Prod.fst, map_fst_toList, ← hk,
      ← map_fst_toList, List.length_map]
  case size_lt =>
    rw [hs, capacity, hsize]
    exact h.size_lt

theorem slot_of_find? (h : t.Valid) (hf : t.find? key = some i) :
    ∃ v, slot t.slots i = some (key, v) := by
  have hc : t.contains key = true := by rw [contains, hf, Option.isSome_some]
  obtain ⟨⟨_, v⟩, he, rfl⟩ := List.mem_map.1 (h.contains_iff.1 hc)
  obtain ⟨j, hj⟩ := mem_toList.1 he
  rw [find?] at hf
  split at hf
  · cases hf
  · rw [Option.filter_eq_some_iff, h.locate_of_slot hj, Option.some_inj] at hf
    exact ⟨v, hf.1 ▸ hj⟩

end Valid

theorem slot_modify (slots : Array (Option (ContentHash × α))) (i j : Nat)
    (g : Option (ContentHash × α) → Option (ContentHash × α)) (hg : g none = none) :
    slot (slots.modify i g) j = if i = j then g (slot slots j) else slot slots j := by
  simp only [slot, Array.getD_eq_getD_getElem?, Array.getElem?_modify]
  split
  · cases slots[j]? <;> simp [hg]
  · rfl

theorem modify_of_find? {f : α → α} (h : t.find? key = some i) : t.modify key f =
    { t with slots := t.slots.modify i fun s => s.map fun (k, v) => (k, f v) } := by
  rw [modify, h]

/-- What stands in the slots after the value in slot `i` was changed. -/
theorem slot_modify_of_find? (hf : t.find? key = some i) {w : α}
    (hw : slot t.slots i = some (key, w)) (f : α → α) (j : Nat) :
    slot (t.modify key f).slots j = if i = j then some (key, f w) else slot t.slots j := by
  rw [modify_of_find? hf, slot_modify _ _ _ _ rfl]
  split
  · rename_i hij
    rw [← hij, hw]
    rfl
  · rfl

theorem modify_of_find?_eq_none {f : α → α} (h : t.find? key = none) : t.modify key f = t := by
  rw [modify, h]

theorem keys_modify (t : Table α) (key : ContentHash) (f : α → α) :
    (t.modify key f).keys = t.keys := by
  cases hf : t.find? key with
  | none => rw [modify_of_find?_eq_none hf]
  | some i =>
    rw [modify_of_find? hf]
    apply Array.ext_getElem?
    intro j
    simp only [keys, Array.getElem?_map, Array.getElem?_modify]
    split
    · cases t.slots[j]? with
      | none => rfl
      | some s => cases s <;> rfl
    · rfl

@[simp] theorem size_modify (t : Table α) (key : ContentHash) (f : α → α) :
    (t.modify key f).size = t.size := by
  rw [modify]
  split <;> rfl

@[simp] theorem capacity_modify (t : Table α) (key : ContentHash) (f : α → α) :
    (t.modify key f).capacity = t.capacity := by
  have := congrArg Array.size (t.keys_modify key f)
  simpa [keys, capacity] using this

theorem keys_map (t : Table α) (f : α → α) : (t.map f).keys = t.keys := by
  apply Array.ext_getElem?
  intro j
  simp only [keys, Table.map, Array.getElem?_map]
  cases t.slots[j]? with
  | none => rfl
  | some s => cases s <;> rfl

@[simp] theorem capacity_map (t : Table α) (f : α → α) : (t.map f).capacity = t.capacity := by
  simp [capacity, Table.map]

theorem slot_map (t : Table α) (f : α → α) (i : Nat) :
    slot (t.map f).slots i = (slot t.slots i).map fun (k, v) => (k, f v) := by
  simp only [slot, Table.map, Array.getD_eq_getD_getElem?, Array.getElem?_map]
  cases t.slots[i]? <;> rfl

namespace Valid

theorem map (h : t.Valid) (f : α → α) : (t.map f).Valid := h.of_keys (t.keys_map f) rfl

/-- Looking up after a change of every value. -/
theorem get?_map (h : t.Valid) (k : ContentHash) (f : α → α) :
    (t.map f).get? k = (t.get? k).map f := by
  ext v
  rw [(h.map f).get?_eq_some_iff, mem_toList, Option.map_eq_some_iff]
  constructor
  · rintro ⟨i, hi⟩
    rw [slot_map] at hi
    obtain ⟨⟨k', w⟩, hw, heq⟩ := Option.map_eq_some_iff.1 hi
    cases heq
    exact ⟨w, h.get?_eq_some_iff.2 (mem_toList.2 ⟨i, hw⟩), rfl⟩
  · rintro ⟨w, hw, rfl⟩
    obtain ⟨i, hi⟩ := mem_toList.1 (h.get?_eq_some_iff.1 hw)
    exact ⟨i, by rw [slot_map, hi]; rfl⟩

theorem modify (h : t.Valid) (key : ContentHash) (f : α → α) : (t.modify key f).Valid :=
  h.of_keys (t.keys_modify key f) (t.size_modify key f)

/-- Looking up after a change. -/
theorem get?_modify (h : t.Valid) (key k : ContentHash) (f : α → α) :
    (t.modify key f).get? k = if k = key then (t.get? k).map f else t.get? k := by
  cases hf : t.find? key with
  | none =>
    rw [modify_of_find?_eq_none hf]
    split
    · rename_i hk
      rw [hk, get?, hf]
      rfl
    · rfl
  | some i =>
    obtain ⟨w, hw⟩ := h.slot_of_find? hf
    ext v
    rw [(h.modify key f).get?_eq_some_iff, mem_toList]
    simp only [slot_modify_of_find? hf hw]
    split
    · rename_i hk
      subst hk
      rw [h.get?_eq_some_iff.2 (mem_toList.2 ⟨i, hw⟩), Option.map_some, Option.some_inj]
      constructor
      · rintro ⟨j, hj⟩
        split at hj
        · simpa using hj
        · rename_i hij
          exact absurd (h.distinct hw hj rfl) hij
      · rintro rfl
        exact ⟨i, by rw [if_pos rfl]⟩
    · rename_i hk
      rw [h.get?_eq_some_iff, mem_toList]
      refine exists_congr fun j => ?_
      split
      · rename_i hij
        rw [← hij, hw]
        simp [Ne.symm hk]
      · rfl

end Valid

end FileMesh.Table
