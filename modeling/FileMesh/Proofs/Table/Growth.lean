import FileMesh.Proofs.Table.Occupancy
import Mathlib.Algebra.Group.Nat.Defs
import Mathlib.Data.Nat.Size
import Mathlib.Order.Bounds.Defs

/-!
# When a table grows

An insertion works on a table in place, and what it has changed when it refuses an entry stays
changed. It looks for reasons to refuse first, and grows the table only for an entry that it
accepts. So a refusal leaves everything as it was, however full the table is, and the number of
slots is known from the number of entries: it is the least power of two beyond twice as many, but
never less than in a new table.
-/

namespace FileMesh.Table

variable {α : Type} {t u : Table α} {key : ContentHash} {value : α}
  {entries : List (ContentHash × α)}

/-! ## The number of slots -/

theorem isLeast_two_pow_size (n : Nat) : IsLeast {c | (∃ k, c = 2 ^ k) ∧ n < c} (2 ^ n.size) := by
  refine ⟨⟨⟨_, rfl⟩, Nat.lt_size_self n⟩, ?_⟩
  rintro _ ⟨⟨k, rfl⟩, hlt⟩
  exact Nat.pow_le_pow_right (by decide) (Nat.size_le.2 hlt)

theorem initialCapacity_eq : initialCapacity = 2 ^ 8 := rfl

/-- The number of slots for so many entries. -/
theorem capacityFor_eq_two_pow (n : Nat) : capacityFor n = 2 ^ max 8 (2 * n).size := by
  induction n with
  | zero => rfl
  | succ n ih =>
    have hlt : 2 * n < 2 ^ max 8 (2 * n).size :=
      Nat.size_le.1 (Nat.le_max_right 8 (2 * n).size)
    have hle : (2 * n).size ≤ (2 * (n + 1)).size := Nat.size_le_size (by omega)
    rw [capacityFor, ih]
    split
    · -- Twice as many are exactly as many as there are slots, a power of two.
      rename_i hfull
      obtain ⟨k, hk⟩ : ∃ k, max 8 (2 * n).size = k + 8 :=
        ⟨_, (Nat.sub_add_cancel (Nat.le_max_left 8 _)).symm⟩
      rw [hk] at hlt hfull ⊢
      have heven : 2 ^ (k + 8) = 2 * 2 ^ (k + 7) := Nat.pow_succ'
      have hexact : 2 * (n + 1) = 2 ^ (k + 8) := by omega
      rw [hexact, Nat.size_pow, Nat.max_eq_right (by omega)]
      exact Nat.pow_succ'.symm
    · rename_i hroom
      have hsize : (2 * (n + 1)).size ≤ max 8 (2 * n).size := Nat.size_le.2 (by omega)
      congr 1
      omega

/-- The number of slots is the least power of two beyond twice as many as there are entries, but no
less than in a new table. -/
theorem Regular.exists_isLeast (h : t.Regular) :
    ∃ c, IsLeast {c | (∃ k, c = 2 ^ k) ∧ 2 * t.size < c} c ∧
      t.capacity = max initialCapacity c := by
  refine ⟨_, isLeast_two_pow_size (2 * t.size), ?_⟩
  rw [h.capacity_eq, capacityFor_eq_two_pow, initialCapacity_eq]
  rcases Nat.le_total 8 (2 * t.size).size with hle | hle
  · rw [Nat.max_eq_right hle, Nat.max_eq_right (Nat.pow_le_pow_right (by decide) hle)]
  · rw [Nat.max_eq_left hle, Nat.max_eq_left (Nat.pow_le_pow_right (by decide) hle)]

/-! ## Insertions in place -/

/-- Adds an entry to a table in place. What was changed before a refusal stays changed. -/
def insertInPlace (key : ContentHash) (value : α) : ExceptT TableError (StateM (Table α)) Unit := do
  let t ← get
  if key.isZero then throw .reservedHash
  if t.contains key then throw (.duplicate key)
  if t.capacity ≤ 2 * (t.size + 1) then set t.grow
  set ((← get).place key value)

/-- The answer of an insertion in place, and the table afterwards. -/
def inserted (t : Table α) (key : ContentHash) (value : α) : Except TableError Unit × Table α :=
  (insertInPlace key value).run.run t

/-- The table after a run of insertions in place into a new one, whatever the answers are. -/
def afterInserts (entries : List (ContentHash × α)) : Table α :=
  entries.foldl (fun t e => (t.inserted e.1 e.2).2) empty

/-- An insertion in place is an insertion, and refusing changes nothing. -/
theorem inserted_eq (t : Table α) (key : ContentHash) (value : α) :
    t.inserted key value = match t.insert key value with
      | .ok u => (.ok (), u)
      | .error cause => (.error cause, t) := by
  have hget (f : Table α → ExceptT TableError (StateM (Table α)) Unit) :
      (get >>= f).run.run t = (f t).run.run t := rfl
  rw [inserted, insertInPlace, hget, insert]
  by_cases hz : key.isZero = true
  · rw [if_pos hz, if_pos hz]
    rfl
  · rw [if_neg hz, if_neg hz]
    by_cases hc : t.contains key = true
    · rw [if_pos hc, if_pos hc]
      rfl
    · rw [if_neg hc, if_neg hc]
      by_cases hfull : t.capacity ≤ 2 * (t.size + 1)
      · rw [if_pos hfull, if_pos hfull]
        rfl
      · rw [if_neg hfull, if_neg hfull]
        rfl

theorem afterInserts_eq (entries : List (ContentHash × α)) :
    afterInserts entries = ofInserts entries := by
  have hoffer (t : Table α) (e : ContentHash × α) : (t.inserted e.1 e.2).2 = t.offer e := by
    rw [inserted_eq, offer]
    cases t.insert e.1 e.2 <;> rfl
  rw [afterInserts, ofInserts]
  congr 1
  funext t e
  exact hoffer t e

/-! ## Growing -/

/-- Growing changes nothing of what is found. -/
theorem Valid.get?_grow (h : t.Valid) (k : ContentHash) : t.grow.get? k = t.get? k := by
  obtain ⟨hv, hp, -⟩ := h.grow
  ext v
  rw [hv.get?_eq_some_iff, h.get?_eq_some_iff, hp.mem_iff]

/-- What an accepted entry changes: it is one more, the slots become twice as many if the table
would be half full with it, and what was found before is found. -/
structure Grown (t u : Table α) : Prop where
  size_eq : u.size = t.size + 1
  capacity_eq : u.capacity = if t.capacity ≤ 2 * (t.size + 1) then 2 * t.capacity else t.capacity
  keeps : ∀ {k v}, t.get? k = some v → u.get? k = some v

theorem Follows.grown_of_insert (h : t.Follows entries) (hr : t.Regular)
    (hu : t.insert key value = .ok u) : t.Grown u := by
  have hz : key ≠ .zero := by
    rintro rfl
    rw [insert_zero] at hu
    cases hu
  have hk : key ∉ t.toList.map Prod.fst := by
    intro hk
    rw [insert_of_contains hz (h.valid.contains_iff.2 hk)] at hu
    cases hu
  obtain ⟨u', hu', hv, -, hp⟩ := insert_of_absent h.valid h.roomy hz hk value
  obtain rfl : u = u' := Except.ok.inj (hu.symm.trans hu')
  have hsize : u.size = t.size + 1 := by
    rw [hv.size_eq, hp.length_eq, List.length_cons, h.valid.size_eq]
  refine ⟨hsize, ?_, fun {k v} hget => ?_⟩
  · rw [(h.valid.regular_insert hr hu).capacity_eq, hsize, capacityFor, ← hr.capacity_eq]
  · rw [h.valid.get?_eq_some_iff] at hget
    exact hv.get?_eq_some_iff.2 (hp.mem_iff.2 (List.mem_cons_of_mem _ hget))

/-- What one more insertion does to a table after these: the entry is refused and nothing changes,
or it is accepted. -/
theorem Follows.inserted_cases (h : t.Follows entries) (hr : t.Regular) (key : ContentHash)
    (value : α) :
    ((key = .zero ∨ key ∈ entries.map Prod.fst) ∧ t.inserted key value =
        (.error (if key = .zero then .reservedHash else .duplicate key), t)) ∨
      (key ≠ .zero ∧ key ∉ entries.map Prod.fst ∧
        ∃ u, t.inserted key value = (.ok (), u) ∧ t.Grown u) := by
  by_cases hz : key = .zero
  · refine .inl ⟨.inl hz, ?_⟩
    rw [inserted_eq, if_pos hz, hz, insert_zero]
  · have hkeys : key ∈ t.toList.map Prod.fst ↔ key ∈ entries.map Prod.fst := by
      rw [h.mem_keys_iff, exists_firstValue_iff, and_iff_right hz]
    by_cases hk : key ∈ entries.map Prod.fst
    · refine .inl ⟨.inr hk, ?_⟩
      rw [inserted_eq, if_neg hz, insert_of_contains hz (h.valid.contains_iff.2 (hkeys.2 hk))]
    · obtain ⟨u, hu, -⟩ := insert_of_absent h.valid h.roomy hz (fun hm => hk (hkeys.1 hm)) value
      refine .inr ⟨hz, hk, u, ?_, h.grown_of_insert hr hu⟩
      rw [inserted_eq, hu]

/-! ## Runs -/

/-- The number of slots goes along with the number of entries, and refusing changes nothing. The
slots are the least power of two beyond twice as many as the entries, unless a new table has more.
Of one more insertion into a table after the insertion of these entries: a key that is the zero hash
or was inserted before is refused, and every other entry is accepted and is one more. The slots
become twice as many just when an accepted entry would make the table half full, and stay as many
otherwise. What was found is found, and growing by itself changes nothing of that. -/
structure GrowsInStep (t : Table α) (entries : List (ContentHash × α)) : Prop where
  exists_isLeast : ∃ c, IsLeast {c | (∃ k, c = 2 ^ k) ∧ 2 * t.size < c} c ∧
    t.capacity = max initialCapacity c
  refused : ∀ key value, key = .zero ∨ key ∈ entries.map Prod.fst →
    t.inserted key value = (.error (if key = .zero then .reservedHash else .duplicate key), t)
  accepted : ∀ key value, key ≠ .zero → key ∉ entries.map Prod.fst →
    (t.inserted key value).1 = .ok ()
  size_eq : ∀ key value, (t.inserted key value).1 = .ok () →
    (t.inserted key value).2.size = t.size + 1
  capacity_eq_or : ∀ key value, (t.inserted key value).2.capacity = t.capacity ∨
    (t.inserted key value).2.capacity = 2 * t.capacity
  doubles_iff : ∀ key value, (t.inserted key value).2.capacity = 2 * t.capacity ↔
    (t.inserted key value).1 = .ok () ∧ t.capacity ≤ 2 * (t.size + 1)
  keeps : ∀ key value k v, t.get? k = some v → (t.inserted key value).2.get? k = some v
  get?_grow : ∀ k, t.grow.get? k = t.get? k

/-- In every run of insertions into a new table the number of slots goes along with the number of
entries, and refusing changes nothing. -/
theorem growsInStep_afterInserts (entries : List (ContentHash × α)) :
    (afterInserts entries).GrowsInStep entries := by
  rw [afterInserts_eq]
  have h := follows_ofInserts entries
  have hr := regular_ofInserts entries
  have hpos : 0 < (ofInserts entries).capacity := Nat.zero_lt_of_lt h.valid.size_lt
  have hcases := h.inserted_cases hr
  refine ⟨hr.exists_isLeast, ?refused, ?accepted, ?size, ?capacity, ?doubles, ?keeps,
    h.valid.get?_grow⟩
  case refused =>
    intro key value hk
    obtain ⟨-, hi⟩ | ⟨hz, hnk, -⟩ := hcases key value
    · exact hi
    · exact absurd hk (not_or.2 ⟨hz, hnk⟩)
  case accepted =>
    intro key value hz hnk
    obtain ⟨hk, -⟩ | ⟨-, -, u, hi, -⟩ := hcases key value
    · exact absurd hk (not_or.2 ⟨hz, hnk⟩)
    · rw [hi]
  case size =>
    intro key value hok
    obtain ⟨-, hi⟩ | ⟨-, -, u, hi, hu⟩ := hcases key value <;> rw [hi] at hok ⊢
    · cases hok
    · exact hu.size_eq
  case capacity =>
    intro key value
    obtain ⟨-, hi⟩ | ⟨-, -, u, hi, hu⟩ := hcases key value <;> rw [hi]
    · exact .inl rfl
    · rw [hu.capacity_eq]
      split
      · exact .inr rfl
      · exact .inl rfl
  case doubles =>
    intro key value
    obtain ⟨-, hi⟩ | ⟨-, -, u, hi, hu⟩ := hcases key value <;> rw [hi]
    · exact iff_of_false (fun hc => absurd hc (by dsimp only; omega)) fun hc => nomatch hc.1
    · rw [hu.capacity_eq, and_iff_right rfl]
      split
      · exact iff_of_true rfl ‹_›
      · exact iff_of_false (by omega) ‹_›
  case keeps =>
    intro key value k v hget
    obtain ⟨-, hi⟩ | ⟨-, -, u, hi, hu⟩ := hcases key value <;> rw [hi]
    · exact hget
    · exact hu.keeps hget

end FileMesh.Table
