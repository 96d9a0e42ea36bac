import FileMesh.Proofs.Table.FirstWins

/-!
# Which slots are taken

An entry goes into the first free slot from the home of its key on. Where it ends up depends on what
was there before; which slots are taken in the end does not: of two entries that are placed one
after the other, either order takes the same two slots. So the slots that are taken are known from
the keys and the number of slots alone, and a table that grows or is filled in another order takes
the same ones.
-/

namespace FileMesh

/-! ## Filling slots -/

namespace Slots

variable {c h i j : Nat} {S : Finset Nat}

/-- Slot `i` is the first one, of `c` slots from `h` on and around the end, that is not in `S`. -/
def IsFirstFree (c : Nat) (S : Finset Nat) (h i : Nat) : Prop :=
  ∃ n, i = (h + n) % c ∧ i ∉ S ∧ ∀ m < n, (h + m) % c ∈ S

/-- The first slot, of `c` slots from `h` on and around the end, that is not in `S`. -/
def firstFree? (c : Nat) (S : Finset Nat) (h : Nat) : Option Nat :=
  ((List.range c).find? fun n => (h + n) % c ∉ S).map fun n => (h + n) % c

/-- The slots that are taken after one more entry with the home `h`. -/
def fill (c : Nat) (S : Finset Nat) (h : Nat) : Finset Nat :=
  match firstFree? c S h with
  | some i => insert i S
  | none => S

theorem firstFree?_eq_some_iff (hc : 0 < c) : firstFree? c S h = some i ↔ IsFirstFree c S h i := by
  simp only [firstFree?, Option.map_eq_some_iff, List.find?_range_eq_some, decide_eq_true_iff,
    Bool.not_eq_true', decide_eq_false_iff_not, not_not, List.mem_range]
  constructor
  · rintro ⟨n, ⟨hn, -, hbefore⟩, rfl⟩
    exact ⟨n, rfl, hn, hbefore⟩
  · rintro ⟨n, rfl, hn, hbefore⟩
    refine ⟨n, ⟨hn, ?_, hbefore⟩, rfl⟩
    -- After a round the walk is where it was before.
    by_contra hle
    have hmem := hbefore (n - c) (by omega)
    rw [← Nat.add_mod_right, show h + (n - c) + c = h + n by omega] at hmem
    exact hn hmem

theorem fill_of_isFirstFree (hc : 0 < c) (hi : IsFirstFree c S h i) : fill c S h = insert i S := by
  rw [fill, (firstFree?_eq_some_iff hc).2 hi]

/-- A walk that meets no free slot has met every slot. -/
theorem mem_of_firstFree?_eq_none (hf : firstFree? c S h = none) (hi : i < c) : i ∈ S := by
  simp only [firstFree?, Option.map_eq_none_iff, List.find?_range_eq_none] at hf
  obtain ⟨n, hn, rfl⟩ := Table.exists_add_mod_eq hi h
  simpa using hf n hn

/-- Every walk ends at a free slot, which is filled, or else all slots are taken and nothing
happens. -/
theorem fill_cases (hc : 0 < c) (S : Finset Nat) :
    (∀ h, ∃ i, IsFirstFree c S h i ∧ fill c S h = insert i S) ∨ ∀ h, fill c S h = S := by
  by_cases hfull : ∃ h, firstFree? c S h = none
  · obtain ⟨h, hh⟩ := hfull
    refine .inr fun h' => ?_
    cases hf : firstFree? c S h' with
    | none => rw [fill, hf]
    | some i =>
      obtain ⟨n, rfl, hn, -⟩ := (firstFree?_eq_some_iff hc).1 hf
      exact absurd (mem_of_firstFree?_eq_none hh (Nat.mod_lt _ hc)) hn
  · refine .inl fun h => ?_
    obtain ⟨i, hi⟩ := Option.ne_none_iff_exists'.1 fun hf => hfull ⟨h, hf⟩
    have hfree := (firstFree?_eq_some_iff hc).1 hi
    exact ⟨i, hfree, fill_of_isFirstFree hc hfree⟩

/-- A walk that ended before another slot that is filled now ends there still. -/
theorem IsFirstFree.insert_of_ne (hi : IsFirstFree c S h i) (hne : i ≠ j) :
    IsFirstFree c (insert j S) h i := by
  obtain ⟨n, hin, hfree, hbefore⟩ := hi
  refine ⟨n, hin, ?_, fun m hm => Finset.mem_insert_of_mem (hbefore m hm)⟩
  rw [Finset.mem_insert, not_or]
  exact ⟨hne, hfree⟩

/-- Once the slot where a walk ended is filled, the walk goes on from there. -/
theorem IsFirstFree.insert_self_iff (hi : IsFirstFree c S h i) :
    IsFirstFree c (insert i S) h j ↔ IsFirstFree c (insert i S) i j := by
  obtain ⟨n, rfl, -, hbefore⟩ := hi
  have hshift (m : Nat) : ((h + n) % c + m) % c = (h + (n + m)) % c := by
    rw [Nat.mod_add_mod, Nat.add_assoc]
  constructor
  · rintro ⟨m, rfl, hfree, hwalk⟩
    -- The walk passes everything up to the filled slot.
    have hle : n ≤ m := by
      by_contra hlt
      exact hfree (Finset.mem_insert_of_mem (hbefore m (Nat.lt_of_not_le hlt)))
    refine ⟨m - n, ?_, hfree, fun k hk => ?_⟩
    · rw [hshift, Nat.add_sub_cancel' hle]
    · rw [hshift]
      exact hwalk (n + k) (by omega)
  · rintro ⟨m, rfl, hfree, hwalk⟩
    refine ⟨n + m, hshift m, hfree, fun k hk => ?_⟩
    rcases Nat.lt_trichotomy k n with hlt | rfl | hlt
    · exact Finset.mem_insert_of_mem (hbefore k hlt)
    · exact Finset.mem_insert_self _ _
    · have hmem := hwalk (k - n) (by omega)
      rwa [hshift, Nat.add_sub_cancel' (Nat.le_of_lt hlt)] at hmem

/-- Two entries take the same slots in either order. If their walks end in different slots, neither
is in the way of the other; if they end in the same one, whichever comes second goes on from
there. -/
theorem fill_right_comm (hc : 0 < c) (S : Finset Nat) (a b : Nat) :
    fill c (fill c S a) b = fill c (fill c S b) a := by
  rcases fill_cases hc S with hfree | hfull
  · obtain ⟨i, hi, hfi⟩ := hfree a
    obtain ⟨j, hj, hfj⟩ := hfree b
    rw [hfi, hfj]
    by_cases hij : i = j
    · subst hij
      rcases fill_cases hc (insert i S) with hfree' | hfull'
      · obtain ⟨k, hk, hfk⟩ := hfree' a
        rw [hfk, fill_of_isFirstFree hc (hj.insert_self_iff.2 (hi.insert_self_iff.1 hk))]
      · rw [hfull', hfull']
    · rw [fill_of_isFirstFree hc (hj.insert_of_ne (Ne.symm hij)),
        fill_of_isFirstFree hc (hi.insert_of_ne hij), Finset.insert_comm]
  · rw [hfull a, hfull b, hfull a]

/-- The slots, of `c`, that are taken once there is an entry for each of these homes. -/
def shape (c : Nat) (homes : List Nat) : Finset Nat := homes.foldl (fill c) ∅

theorem shape_concat (c : Nat) (homes : List Nat) (h : Nat) :
    shape c (homes ++ [h]) = fill c (shape c homes) h := by
  rw [shape, shape, List.foldl_append]
  rfl

/-- The order of the entries has no influence on the slots that are taken. -/
theorem shape_of_perm (hc : 0 < c) {homes homes' : List Nat} (hp : homes.Perm homes') :
    shape c homes = shape c homes' :=
  hp.foldl_eq' (fun a _ b _ S => fill_right_comm hc S a b) ∅

end Slots

/-! ## The slots of a table -/

namespace Table

variable {α : Type} {t : Table α} {key : ContentHash} {entries entries' : List (ContentHash × α)}

/-- The slots that are taken. -/
def occupied (t : Table α) : Finset Nat :=
  (Finset.range t.capacity).filter fun i => (slot t.slots i).isSome

/-- The homes of the keys, in slot order. -/
def homes (t : Table α) : List Nat := t.toList.map fun e => e.1.home

theorem lt_of_slot_ne_none {i : Nat} (h : slot t.slots i ≠ none) : i < t.capacity := by
  by_contra hle
  rw [slot, Array.getD_eq_getD_getElem?, Array.getElem?_eq_none (Nat.le_of_not_lt hle)] at h
  exact h rfl

theorem mem_occupied_iff {i : Nat} : i ∈ t.occupied ↔ slot t.slots i ≠ none := by
  rw [occupied, Finset.mem_filter, Finset.mem_range, Option.isSome_iff_ne_none]
  exact and_iff_right_of_imp lt_of_slot_ne_none

/-- The table takes the slots that its keys determine, whichever order they came in. -/
def Shaped (t : Table α) : Prop := t.occupied = Slots.shape t.capacity t.homes

theorem shaped_withCapacity (n : Nat) : (withCapacity n : Table α).Shaped := by
  have hnone : (withCapacity n : Table α).occupied = ∅ := by
    ext i
    simp [mem_occupied_iff]
  rw [Shaped, hnone, homes, toList_withCapacity]
  rfl

/-- Placing an absent key takes the first free slot from its home on. -/
theorem Valid.occupied_place (h : t.Valid) (hk : key ∉ t.toList.map Prod.fst) (value : α) :
    (t.place key value).occupied = Slots.fill t.capacity t.occupied key.home := by
  obtain ⟨n, hn, hloc, hnone, hbefore⟩ := h.locate_of_absent hk
  have hpos : 0 < t.capacity := Nat.zero_lt_of_lt hn
  have hfree : Slots.IsFirstFree t.capacity t.occupied key.home (probe t.slots key n) := by
    refine ⟨n, rfl, ?_, fun m hm => mem_occupied_iff.2 (hbefore m hm)⟩
    rw [mem_occupied_iff, not_not]
    exact hnone
  rw [Slots.fill_of_isFirstFree hpos hfree]
  ext i
  rw [mem_occupied_iff, slot_place hloc (probe_lt hpos n), Finset.mem_insert, mem_occupied_iff]
  by_cases hi : i = probe t.slots key n
  · simp [hi]
  · simp [hi]

/-- Placing an absent key keeps the shape. -/
theorem Valid.shaped_place (h : t.Valid) (hs : t.Shaped) (hk : key ∉ t.toList.map Prod.fst)
    (value : α) : (t.place key value).Shaped := by
  have hpos : 0 < t.capacity := Nat.zero_lt_of_lt h.size_lt
  have hhomes : (t.place key value).homes.Perm (t.homes ++ [key.home]) :=
    ((h.perm_place hk value).map _).trans (List.perm_append_singleton _ _).symm
  rw [Shaped, h.occupied_place hk, capacity_place, Slots.shape_of_perm hpos hhomes,
    Slots.shape_concat, ← hs]

theorem placeAll_concat (t : Table α) (entries : List (ContentHash × α)) (e : ContentHash × α) :
    t.placeAll (entries ++ [e]) = (t.placeAll entries).place e.1 e.2 := by
  rw [placeAll, List.foldl_append]
  rfl

/-- Placing absent keys one after the other keeps the shape. -/
theorem Valid.shaped_placeAll (h : t.Valid) (hs : t.Shaped)
    (hz : ContentHash.zero ∉ entries.map Prod.fst)
    (hk : ((entries ++ t.toList).map Prod.fst).Nodup)
    (hroom : t.size + entries.length < t.capacity) : (t.placeAll entries).Shaped := by
  induction entries using List.reverseRecOn with
  | nil => exact hs
  | append_singleton entries e ih =>
    obtain ⟨key, value⟩ := e
    have hmid : (entries ++ [(key, value)] ++ t.toList).Perm
        ((key, value) :: (entries ++ t.toList)) := by
      rw [List.append_assoc]
      exact List.perm_middle
    have hnodup := (hmid.map Prod.fst).nodup_iff.1 hk
    rw [List.map_cons, List.nodup_cons] at hnodup
    have hz' : ContentHash.zero ∉ entries.map Prod.fst := fun hm => hz (by
      rw [List.map_append]
      exact List.mem_append_left _ hm)
    have hroom' : t.size + entries.length < t.capacity := by
      rw [List.length_append] at hroom
      omega
    obtain ⟨hv, hp, -⟩ := h.placeAll hz' hnodup.2 hroom'
    rw [placeAll_concat]
    refine hv.shaped_place (ih hz' hnodup.2 hroom') (fun hm => hnodup.1 ?_) value
    exact (hp.map Prod.fst).mem_iff.1 hm

theorem Valid.shaped_grow (h : t.Valid) : t.grow.Shaped := by
  have hlt := h.size_lt
  have hsize := h.size_eq
  rw [grow_eq_placeAll]
  refine (valid_withCapacity (by omega)).shaped_placeAll (shaped_withCapacity _) h.zero_notMem ?_ ?_
  · rw [toList_withCapacity, List.append_nil]
    exact h.nodup_keys
  · rw [capacity_withCapacity]
    change 0 + _ < _
    omega

/-! ## The slots after a run -/

/-- The number of slots of a table with so many entries. -/
def capacityFor : Nat → Nat
  | 0 => initialCapacity
  | n + 1 => if capacityFor n ≤ 2 * (n + 1) then 2 * capacityFor n else capacityFor n

/-- The number of slots and the ones that are taken are known from the keys alone. -/
structure Regular (t : Table α) : Prop where
  shaped : t.Shaped
  capacity_eq : t.capacity = capacityFor t.size

theorem regular_empty : (empty : Table α).Regular where
  shaped := shaped_withCapacity _
  capacity_eq := capacity_withCapacity _

theorem Valid.regular_insert {u : Table α} {value : α} (h : t.Valid) (hr : t.Regular)
    (hu : t.insert key value = .ok u) : u.Regular := by
  unfold insert at hu
  split at hu
  · cases hu
  · split at hu
    · cases hu
    · rename_i hno
      rw [Bool.not_eq_true, Bool.eq_false_iff, Ne, h.contains_iff] at hno
      -- What the entry is placed in: the table itself, or the larger one.
      obtain ⟨w, rfl, hv, hs, hp, hc⟩ : ∃ w : Table α, u = w.place key value ∧ w.Valid ∧
          w.Shaped ∧ w.toList.Perm t.toList ∧
          w.capacity = if t.capacity ≤ 2 * (t.size + 1) then 2 * t.capacity else t.capacity := by
        rw [← Except.ok.inj hu]
        by_cases hfull : t.capacity ≤ 2 * (t.size + 1)
        · obtain ⟨hv, hp, hc⟩ := h.grow
          rw [if_pos hfull, if_pos hfull]
          exact ⟨t.grow, rfl, hv, h.shaped_grow, hp, hc⟩
        · rw [if_neg hfull, if_neg hfull]
          exact ⟨t, rfl, h, hr.shaped, List.Perm.refl _, rfl⟩
      have hkw : key ∉ w.toList.map Prod.fst := fun hm => hno ((hp.map Prod.fst).mem_iff.1 hm)
      refine ⟨hv.shaped_place hs hkw value, ?_⟩
      have hsize : (w.place key value).size = t.size + 1 := by
        obtain ⟨n, -, hloc, -⟩ := hv.locate_of_absent hkw
        rw [place_of_locate hloc, h.size_eq, ← hp.length_eq, ← hv.size_eq]
      rw [capacity_place, hsize, capacityFor, hc, hr.capacity_eq]

/-- The slots that a run of insertions takes, and their number, are known from the keys. -/
theorem regular_ofInserts (entries : List (ContentHash × α)) : (ofInserts entries).Regular := by
  induction entries using List.reverseRecOn with
  | nil => exact regular_empty
  | append_singleton entries e ih =>
    rw [ofInserts_concat, offer]
    split
    · rename_i u hu
      exact (follows_ofInserts entries).valid.regular_insert ih hu
    · exact ih

/-! ## Runs in two orders -/

/-- The tables differ at most in where each entry is: they have as many entries and slots, the same
slots are taken, and the same is found under every key. -/
structure SameShape (t u : Table α) : Prop where
  size_eq : t.size = u.size
  capacity_eq : t.capacity = u.capacity
  occupied_eq : t.occupied = u.occupied
  get?_eq : ∀ key, t.get? key = u.get? key

theorem lookup_eq_some_iff_mem {value : α} (hd : (entries.map Prod.fst).Nodup) :
    entries.lookup key = some value ↔ (key, value) ∈ entries := by
  constructor
  · intro h
    obtain ⟨before, after, rfl, -⟩ := List.lookup_eq_some_iff.1 h
    exact List.mem_append_right _ List.mem_cons_self
  · intro h
    obtain ⟨before, after, rfl⟩ := List.append_of_mem h
    rw [List.map_append, List.map_cons, List.nodup_middle, List.nodup_cons, List.mem_append,
      not_or] at hd
    refine List.lookup_eq_some_iff.2 ⟨before, after, rfl, fun e he => ?_⟩
    rw [bne_iff_ne]
    rintro rfl
    exact hd.1.1 (List.mem_map.2 ⟨e, he, rfl⟩)

/-- If no key comes twice, the order does not decide which value is the first one. -/
theorem firstValue_of_perm (hp : entries.Perm entries') (hd : (entries.map Prod.fst).Nodup) :
    firstValue entries = firstValue entries' := by
  have hd' := (hp.map Prod.fst).nodup_iff.1 hd
  have hlookup (key : ContentHash) : entries.lookup key = entries'.lookup key := by
    ext value
    rw [lookup_eq_some_iff_mem hd, lookup_eq_some_iff_mem hd', hp.mem_iff]
  funext key
  rw [firstValue, firstValue, hlookup]

/-- The entries of a table are known, up to their order, from the first values. -/
theorem Follows.perm_toList {u : Table α} (ht : t.Follows entries) (hu : u.Follows entries')
    (hfirst : firstValue entries = firstValue entries') : t.toList.Perm u.toList := by
  rw [List.perm_ext_iff_of_nodup ht.valid.nodup_keys.of_map hu.valid.nodup_keys.of_map]
  rintro ⟨key, value⟩
  rw [ht.mem_iff, hu.mem_iff, hfirst]

/-- Entries with distinct keys make tables of one shape in every order. -/
theorem sameShape_of_perm (hp : entries.Perm entries') (hd : (entries.map Prod.fst).Nodup) :
    (ofInserts entries).SameShape (ofInserts entries') := by
  have h := follows_ofInserts entries
  have h' := follows_ofInserts entries'
  have hr := regular_ofInserts entries
  have hr' := regular_ofInserts entries'
  have hfirst := firstValue_of_perm hp hd
  have hperm := h.perm_toList h' hfirst
  have hsize : (ofInserts entries).size = (ofInserts entries').size := by
    rw [h.valid.size_eq, h'.valid.size_eq, hperm.length_eq]
  have hcap : (ofInserts entries).capacity = (ofInserts entries').capacity := by
    rw [hr.capacity_eq, hr'.capacity_eq, hsize]
  have hpos : 0 < (ofInserts entries).capacity := Nat.zero_lt_of_lt h.valid.size_lt
  have hhomes : (ofInserts entries).homes.Perm (ofInserts entries').homes := hperm.map _
  exact {
    size_eq := hsize
    capacity_eq := hcap
    occupied_eq := by rw [hr.shaped, hr'.shaped, Slots.shape_of_perm hpos hhomes, hcap]
    get?_eq := fun key => by rw [h.get?_eq, h'.get?_eq, hfirst] }

/-! ## Where an entry is -/

theorem Valid.find?_of_slot (h : t.Valid) {i : Nat} {value : α}
    (hi : slot t.slots i = some (key, value)) : t.find? key = some i := by
  have hz : key.isZero = false := by
    rw [Bool.eq_false_iff, Ne, ContentHash.isZero_iff]
    exact h.ne_zero hi
  simp [find?, hz, h.locate_of_slot hi, hi, Option.filter]

/-- An entry that is not in the way of another one is at its home. -/
theorem slot_place_home (h : t.Valid) (hk : key ∉ t.toList.map Prod.fst)
    (hnone : slot t.slots (key.home % t.capacity) = none) (value : α) :
    slot (t.place key value).slots (key.home % t.capacity) = some (key, value) := by
  obtain ⟨n, hn, hloc, -, hbefore⟩ := h.locate_of_absent hk
  obtain rfl : n = 0 := by
    by_contra hpos
    exact hbefore 0 (Nat.pos_of_ne_zero hpos) hnone
  rw [slot_place hloc (probe_lt (Nat.zero_lt_of_lt hn) 0)]
  exact if_pos rfl

/-- Placing an absent key moves no entry. -/
theorem slot_place_of_slot (h : t.Valid) (hk : key ∉ t.toList.map Prod.fst) (value : α) {i : Nat}
    {e : ContentHash × α} (hi : slot t.slots i = some e) :
    slot (t.place key value).slots i = some e := by
  obtain ⟨n, hn, hloc, hnone, -⟩ := h.locate_of_absent hk
  rw [slot_place hloc (probe_lt (Nat.zero_lt_of_lt hn) n), if_neg, hi]
  rintro rfl
  rw [hnone] at hi
  cases hi

theorem offer_of_room {e : ContentHash × α} (h : t.Valid) (hz : e.1 ≠ .zero)
    (hk : e.1 ∉ t.toList.map Prod.fst) (hroom : 2 * (t.size + 1) < t.capacity) :
    t.offer e = t.place e.1 e.2 := by
  have hno : t.contains e.1 = false := by
    rwa [Bool.eq_false_iff, Ne, h.contains_iff]
  simp [offer, insert, hz, hno, Nat.not_le.2 hroom]

/-- Of two entries, the first one that comes is at its home. -/
theorem slot_ofInserts_pair {e f : ContentHash × α} (he : e.1 ≠ .zero) (hf : f.1 ≠ .zero)
    (hne : e.1 ≠ f.1) :
    slot (ofInserts [e, f]).slots (e.1.home % initialCapacity) = some e := by
  have h := follows_empty (α := α)
  have h' := follows_ofInserts [e]
  have hcap : (empty : Table α).capacity = initialCapacity := capacity_withCapacity _
  have habsent : e.1 ∉ (empty : Table α).toList.map Prod.fst := by
    simp [empty]
  have habsent' : f.1 ∉ (ofInserts [e]).toList.map Prod.fst := by
    rw [h'.mem_keys_iff, exists_firstValue_iff]
    simp [hne.symm]
  have hsize' : (ofInserts [e]).size = 1 := by
    rw [h'.size_eq]
    simp [he.symm]
  have hroom : 2 * ((empty : Table α).size + 1) < (empty : Table α).capacity := by
    rw [hcap]
    exact (by decide : 2 * (0 + 1) < initialCapacity)
  have hroom' : 2 * ((ofInserts [e]).size + 1) < (ofInserts [e]).capacity := by
    rw [(regular_ofInserts [e]).capacity_eq, hsize']
    decide
  have hone : ofInserts [e] = empty.place e.1 e.2 :=
    (ofInserts_concat [] e).trans (offer_of_room h.valid he habsent hroom)
  have htwo : ofInserts [e, f] = (ofInserts [e]).place f.1 f.2 :=
    (ofInserts_concat [e] f).trans (offer_of_room h'.valid hf habsent' hroom')
  rw [htwo]
  refine slot_place_of_slot h'.valid habsent' _ ?_
  rw [hone, ← hcap]
  exact slot_place_home h.valid habsent (slot_withCapacity _ _) _

/-- Of two keys with one home, the order decides which one is there. -/
theorem find?_ofInserts_pair_ne {e f : ContentHash × α} (he : e.1 ≠ .zero) (hf : f.1 ≠ .zero)
    (hne : e.1 ≠ f.1) (hhome : e.1.home % initialCapacity = f.1.home % initialCapacity) :
    (ofInserts [e, f]).find? e.1 ≠ (ofInserts [f, e]).find? e.1 := by
  have h := follows_ofInserts [e, f]
  have h' := follows_ofInserts [f, e]
  have hat' := slot_ofInserts_pair hf he hne.symm
  rw [h.valid.find?_of_slot (slot_ofInserts_pair he hf hne), hhome]
  -- In the other order the entry is somewhere, but not there.
  have hmem : e.1 ∈ (ofInserts [f, e]).toList.map Prod.fst := by
    rw [h'.mem_keys_iff, exists_firstValue_iff]
    exact ⟨he, by simp⟩
  obtain ⟨⟨key, value⟩, hmem, rfl⟩ := List.mem_map.1 hmem
  obtain ⟨i, hi⟩ := mem_toList.1 hmem
  rw [h'.valid.find?_of_slot hi, Ne, Option.some_inj]
  rintro rfl
  rw [hat', Option.some_inj] at hi
  exact hne (congrArg Prod.fst hi).symm

/-- What the order of insertions decides. The tables that come out have the same shape, whatever the
order is; but of two keys with one home, the first one that comes is there. -/
theorem order_ofInserts :
    (∀ entries entries' : List (ContentHash × α), (entries.map Prod.fst).Nodup →
      entries.Perm entries' → (ofInserts entries).SameShape (ofInserts entries')) ∧
    ∀ e f : ContentHash × α, e.1 ≠ .zero → f.1 ≠ .zero → e.1 ≠ f.1 →
      e.1.home % initialCapacity = f.1.home % initialCapacity →
      (ofInserts [e, f]).find? e.1 ≠ (ofInserts [f, e]).find? e.1 :=
  ⟨fun _ _ hd hp => sameShape_of_perm hp hd, fun _ _ => find?_ofInserts_pair_ne⟩

/-- Two keys that have the same home in a new table. -/
theorem order_ofInserts_of_collision :
    let e : ContentHash × Nat := (.ofBytes [5], 0)
    let f : ContentHash × Nat := (.ofBytes [5, 1], 1)
    ([e, f].map Prod.fst).Nodup ∧ [e, f].Perm [f, e] ∧ e.1 ≠ .zero ∧ f.1 ≠ .zero ∧
      e.1.home % initialCapacity = f.1.home % initialCapacity ∧
      (ofInserts [e, f]).SameShape (ofInserts [f, e]) ∧
      (ofInserts [e, f]).find? e.1 ≠ (ofInserts [f, e]).find? e.1 := by
  intro e f
  have hne : e.1 ≠ f.1 := by decide
  have hhome : e.1.home % initialCapacity = f.1.home % initialCapacity := by decide
  have hp : [e, f].Perm [f, e] := List.Perm.swap f e []
  have hd : ([e, f].map Prod.fst).Nodup := by decide
  exact ⟨hd, hp, by decide, by decide, hhome, order_ofInserts.1 _ _ hd hp,
    order_ofInserts.2 e f (by decide) (by decide) hne hhome⟩

end Table

end FileMesh
