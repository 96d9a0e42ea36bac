import FileMesh.Table
import Mathlib.Data.List.Nodup
import Mathlib.Data.Nat.Find

/-!
# Probing a table

Looking for a key walks the slots from its home on and around the end. The walk has no bound of its
own: it ends because some slot is empty. The invariant below says which tables keep that promise and
find every key they hold.
-/

namespace FileMesh.Table

variable {α : Type} {slots : Array (Option (ContentHash × α))} {t : Table α} {key : ContentHash}

/-- The slot that looking for `key` visits after `n` steps. -/
def probe (slots : Array (Option (ContentHash × α))) (key : ContentHash) (n : Nat) : Nat :=
  (key.home + n) % slots.size

/-- Whether looking for `key` goes on at slot `i`: another key is there. -/
def Passes (slots : Array (Option (ContentHash × α))) (key : ContentHash) (i : Nat) : Prop :=
  ∃ k v, slot slots i = some (k, v) ∧ k ≠ key

/-- Every walk for a key meets an empty slot before it has gone around. -/
def Ends (t : Table α) : Prop :=
  ∀ key, ∃ n < t.capacity, slot t.slots (probe t.slots key n) = none

/-- Keys are distinct and not zero, no slot between a key's home and its place is empty, the entries
are counted, and not every slot is taken. -/
structure Valid (t : Table α) : Prop where
  distinct : ∀ {i j e f}, slot t.slots i = some e → slot t.slots j = some f → e.1 = f.1 → i = j
  ne_zero : ∀ {i e}, slot t.slots i = some e → e.1 ≠ .zero
  chain : ∀ {i e}, slot t.slots i = some e →
    ∃ n < t.capacity, i = probe t.slots e.1 n ∧ ∀ m < n, slot t.slots (probe t.slots e.1 m) ≠ none
  size_eq : t.size = t.toList.length
  size_lt : t.size < t.capacity

/-! ## Slots and entries -/

theorem slot_eq_getElem? (i : Nat) : slot slots i = slots.toList[i]?.join := by
  rw [slot, Array.getD_eq_getD_getElem?, Array.getElem?_toList]
  cases slots[i]? <;> rfl

theorem mem_toList {e : ContentHash × α} : e ∈ t.toList ↔ ∃ i, slot t.slots i = some e := by
  simp only [toList, List.mem_filterMap, id_eq, slot_eq_getElem?, Option.join_eq_some_iff]
  constructor
  · rintro ⟨a, ha, rfl⟩
    exact List.mem_iff_getElem?.1 ha
  · rintro ⟨i, hi⟩
    exact ⟨_, List.mem_iff_getElem?.2 ⟨i, hi⟩, rfl⟩

theorem slot_setIfInBounds {i : Nat} (hi : i < slots.size) (s : Option (ContentHash × α))
    (j : Nat) :
    slot (slots.setIfInBounds i s) j = if j = i then s else slot slots j := by
  simp only [slot, Array.getD_eq_getD_getElem?, Array.getElem?_setIfInBounds, eq_comm (a := j)]
  by_cases h : i = j
  · simp [h ▸ hi, h]
  · simp [h]

/-- Filling an empty place of a list of slots adds one entry. -/
theorem perm_filterMap_set {l : List (Option (ContentHash × α))} {i : Nat} (e : ContentHash × α)
    (h : l[i]? = some none) : ((l.set i (some e)).filterMap id).Perm (e :: l.filterMap id) := by
  induction l generalizing i with
  | nil => simp at h
  | cons a l ih =>
    cases i with
    | zero =>
      have ha : a = none := by simpa using h
      simp [ha]
    | succ i =>
      have hp := ih (by simpa using h)
      cases a with
      | none => simpa using hp
      | some f => exact (hp.cons f).trans (List.Perm.swap e f _)

theorem contains_eq_isSome_get? (t : Table α) (key : ContentHash) :
    t.contains key = (t.get? key).isSome := by
  simp only [contains, get?, find?]
  split
  · rfl
  · cases locate t.slots key with
    | none => rfl
    | some i => cases hs : slot t.slots i <;> simp [Option.filter, hs]

/-! ## Walks -/

theorem probe_lt (h : 0 < slots.size) (n : Nat) : probe slots key n < slots.size :=
  Nat.mod_lt _ h

/-- From anywhere, a round meets every slot. -/
theorem exists_add_mod_eq {c i : Nat} (h : i < c) (a : Nat) : ∃ n < c, (a + n) % c = i := by
  have hm := Nat.mod_lt a (Nat.zero_lt_of_lt h)
  refine ⟨(i + (c - a % c)) % c, Nat.mod_lt _ (Nat.zero_lt_of_lt h), ?_⟩
  rw [Nat.add_mod_mod, ← Nat.mod_add_mod, show a % c + (i + (c - a % c)) = i + c by omega,
    Nat.add_mod_right, Nat.mod_eq_of_lt h]

/-- Every slot is on the walk of every key. -/
theorem exists_probe_eq {i : Nat} (h : i < slots.size) (key : ContentHash) :
    ∃ n < slots.size, probe slots key n = i :=
  exists_add_mod_eq h key.home

theorem seek_of_passes {i m n : Nat} (hmn : m < n)
    (hpass : ∀ j < m, Passes slots key ((i + j) % slots.size))
    (hstop : ¬ Passes slots key ((i + m) % slots.size)) (hi : i < slots.size) :
    seek slots key n i = some ((i + m) % slots.size) := by
  induction m generalizing i n with
  | zero =>
    obtain ⟨n, rfl⟩ : ∃ k, n = k + 1 := ⟨n - 1, by omega⟩
    have h0 : (i + 0) % slots.size = i := Nat.mod_eq_of_lt hi
    rw [h0] at hstop ⊢
    rw [seek]
    split
    · rfl
    · rename_i k v hs
      rw [if_pos (by_contra fun hk => hstop ⟨k, v, hs, hk⟩)]
  | succ m ih =>
    obtain ⟨n, rfl⟩ : ∃ k, n = k + 1 := ⟨n - 1, by omega⟩
    have hstep (j : Nat) :
        ((i + 1) % slots.size + j) % slots.size = (i + (j + 1)) % slots.size := by
      rw [Nat.mod_add_mod, Nat.add_assoc, Nat.add_comm 1 j]
    obtain ⟨k, v, hs, hk⟩ := hpass 0 (Nat.succ_pos m)
    rw [Nat.add_zero, Nat.mod_eq_of_lt hi] at hs
    rw [seek, hs]
    simp only [if_neg hk]
    rw [ih (Nat.lt_of_succ_lt_succ hmn) ?_ ?_ (Nat.mod_lt _ (Nat.zero_lt_of_lt hi)), hstep]
    · intro j hj
      rw [hstep]
      exact hpass (j + 1) (Nat.succ_lt_succ hj)
    · rwa [hstep]

/-- A walk that stops within a round stops at the first slot that it does not pass. -/
theorem locate_of_stop {n : Nat} (hn : n < slots.size)
    (hstop : ¬ Passes slots key (probe slots key n)) :
    ∃ m ≤ n, locate slots key = some (probe slots key m) ∧ ¬ Passes slots key (probe slots key m) ∧
      ∀ j < m, Passes slots key (probe slots key j) := by
  classical
  have hex : ∃ m, ¬ Passes slots key (probe slots key m) := ⟨n, hstop⟩
  have hle : Nat.find hex ≤ n := Nat.find_min' hex hstop
  have hbefore (j : Nat) (hj : j < Nat.find hex) : Passes slots key (probe slots key j) :=
    not_not.1 (Nat.find_min hex hj)
  refine ⟨Nat.find hex, hle, ?_, Nat.find_spec hex, hbefore⟩
  have hmod (j : Nat) : (key.home % slots.size + j) % slots.size = probe slots key j :=
    Nat.mod_add_mod ..
  rw [locate, seek_of_passes (Nat.lt_of_le_of_lt hle hn) ?_ ?_ (Nat.mod_lt _ (by omega)), hmod]
  · intro j hj
    rw [hmod]
    exact hbefore j hj
  · rw [hmod]
    exact Nat.find_spec hex

theorem ne_none_of_passes {i : Nat} (h : Passes slots key i) : slot slots i ≠ none := by
  obtain ⟨k, v, hs, -⟩ := h
  simp [hs]

theorem not_passes_of_none {i : Nat} (h : slot slots i = none) : ¬ Passes slots key i :=
  fun hp => ne_none_of_passes hp h

theorem not_passes_iff {i : Nat} :
    ¬ Passes slots key i ↔ slot slots i = none ∨ ∃ v, slot slots i = some (key, v) := by
  cases h : slot slots i with
  | none => simp [Passes, h]
  | some e => simp [Passes, h, Prod.ext_iff]

/-! ## The invariant -/

@[simp] theorem toList_withCapacity (n : Nat) : (withCapacity n : Table α).toList = [] := by
  simp [withCapacity, toList]

@[simp] theorem capacity_withCapacity (n : Nat) : (withCapacity n : Table α).capacity = n := by
  simp [withCapacity, capacity]

@[simp] theorem slot_withCapacity (n i : Nat) : slot (withCapacity n : Table α).slots i = none := by
  simp only [withCapacity, slot, Array.getD_eq_getD_getElem?, Array.getElem?_replicate]
  split <;> rfl

theorem valid_withCapacity {n : Nat} (h : 0 < n) : (withCapacity n : Table α).Valid := by
  constructor
  · intro i j e f hi
    simp at hi
  · intro i e hi
    simp at hi
  · intro i e hi
    simp at hi
  · rw [toList_withCapacity]
    rfl
  · rwa [capacity_withCapacity]

namespace Valid

/-- Some slot is empty: there are fewer entries than slots. -/
theorem exists_vacant (h : t.Valid) : ∃ i < t.capacity, slot t.slots i = none := by
  by_contra hfull
  have hall : ∀ s ∈ t.slots.toList, s.isSome = true := by
    intro s hs
    obtain ⟨i, hi, rfl⟩ := List.mem_iff_getElem.1 hs
    have hne : slot t.slots i ≠ none := fun hn => hfull ⟨i, by simpa [capacity] using hi, hn⟩
    rw [slot_eq_getElem?, List.getElem?_eq_getElem hi] at hne
    exact Option.isSome_iff_ne_none.2 hne
  have hlen : t.toList.length = t.capacity := by
    rw [toList, List.length_filterMap_eq_countP]
    exact (List.countP_eq_length.2 hall).trans Array.length_toList
  have := h.size_eq
  have := h.size_lt
  omega

/-- No walk goes on for ever. -/
theorem ends (h : t.Valid) : t.Ends := by
  intro key
  obtain ⟨i, hi, hn⟩ := h.exists_vacant
  obtain ⟨n, hlt, rfl⟩ := exists_probe_eq hi key
  exact ⟨n, hlt, hn⟩

/-- A stored key is found where it is. -/
theorem locate_of_slot (h : t.Valid) {i : Nat} {v : α} (hi : slot t.slots i = some (key, v)) :
    locate t.slots key = some i := by
  obtain ⟨n, hn, rfl, hchain⟩ := h.chain hi
  have hstop : ¬ Passes t.slots key (probe t.slots key n) := not_passes_iff.2 (.inr ⟨v, hi⟩)
  obtain ⟨m, hm, hloc, hms, -⟩ := locate_of_stop hn hstop
  rw [hloc]
  rcases not_passes_iff.1 hms with hnone | ⟨w, hw⟩
  · rcases Nat.lt_or_eq_of_le hm with hlt | rfl
    · exact absurd hnone (hchain m hlt)
    · rfl
  · exact congrArg some (h.distinct hw hi rfl)

/-- A walk for an absent key ends at an empty slot, and no slot before it is empty. -/
theorem locate_of_absent (h : t.Valid) (hk : key ∉ t.toList.map Prod.fst) :
    ∃ n < t.capacity, locate t.slots key = some (probe t.slots key n) ∧
      slot t.slots (probe t.slots key n) = none ∧
      ∀ m < n, slot t.slots (probe t.slots key m) ≠ none := by
  obtain ⟨n, hn, hnone⟩ := h.ends key
  obtain ⟨m, hm, hloc, hms, hbefore⟩ := locate_of_stop hn (not_passes_of_none hnone)
  refine ⟨m, Nat.lt_of_le_of_lt hm hn, hloc, ?_, fun j hj => ne_none_of_passes (hbefore j hj)⟩
  rcases not_passes_iff.1 hms with hs | ⟨v, hv⟩
  · exact hs
  · exact absurd (List.mem_map.2 ⟨_, mem_toList.2 ⟨_, hv⟩, rfl⟩) hk

theorem zero_notMem (h : t.Valid) : ContentHash.zero ∉ t.toList.map Prod.fst := by
  intro hz
  obtain ⟨e, he, hz⟩ := List.mem_map.1 hz
  obtain ⟨i, hi⟩ := mem_toList.1 he
  exact h.ne_zero hi hz

/-- Each key is stored once. -/
theorem nodup_keys (h : t.Valid) : (t.toList.map Prod.fst).Nodup := by
  rw [List.Nodup, List.pairwise_map, toList, List.pairwise_filterMap, List.pairwise_iff_getElem]
  intro i j hi hj hij e he f hf hef
  have hat {k : Nat} (hk : k < t.slots.toList.length) {g : ContentHash × α}
      (hg : id t.slots.toList[k] = some g) : slot t.slots k = some g := by
    rw [slot_eq_getElem?, List.getElem?_eq_getElem hk]
    exact hg
  exact absurd (h.distinct (hat hi he) (hat hj hf) hef) (Nat.ne_of_lt hij)

/-- What is found under a key is what is stored under it. -/
theorem get?_eq_some_iff (h : t.Valid) {v : α} : t.get? key = some v ↔ (key, v) ∈ t.toList := by
  by_cases hz : key = .zero
  · have hno : (key, v) ∉ t.toList := fun hm => h.zero_notMem (List.mem_map.2 ⟨_, hm, hz⟩)
    subst hz
    simp [get?, find?, hno]
  · have hz' : key.isZero = false := by simpa [ContentHash.isZero] using hz
    constructor
    · intro hg
      simp only [get?, find?, hz', Bool.false_eq_true, if_false, Option.bind_eq_some_iff,
        Option.filter_eq_some_iff, Option.map_eq_some_iff] at hg
      obtain ⟨i, ⟨hloc, -⟩, ⟨k, w⟩, hs, rfl⟩ := hg
      by_cases hk : key ∈ t.toList.map Prod.fst
      · obtain ⟨⟨_, u⟩, he, rfl⟩ := List.mem_map.1 hk
        obtain ⟨j, hj⟩ := mem_toList.1 he
        rw [h.locate_of_slot hj, Option.some_inj] at hloc
        rw [← hloc, hj, Option.some_inj, Prod.mk.injEq] at hs
        exact hs.2 ▸ he
      · obtain ⟨n, -, hl, hn, -⟩ := h.locate_of_absent hk
        rw [hl, Option.some_inj] at hloc
        rw [← hloc, hn] at hs
        cases hs
    · intro hm
      obtain ⟨i, hi⟩ := mem_toList.1 hm
      simp [get?, find?, hz', h.locate_of_slot hi, hi, Option.filter]

theorem contains_iff (h : t.Valid) : t.contains key = true ↔ key ∈ t.toList.map Prod.fst := by
  rw [contains_eq_isSome_get?, Option.isSome_iff_exists, List.mem_map]
  simp only [h.get?_eq_some_iff]
  constructor
  · rintro ⟨v, hv⟩
    exact ⟨_, hv, rfl⟩
  · rintro ⟨⟨k, v⟩, hv, rfl⟩
    exact ⟨v, hv⟩

end Valid

end FileMesh.Table
