import FileMesh.Proofs.Chunks
import FileMesh.Disk.OpenFile

/-!
# Hashing of ranges

A range that is read and hashed block by block has the hash of its bytes. There is a hash exactly
when the range lies in the source.
-/

namespace FileMesh

namespace Cursor

variable {c : Cursor} {n : Nat}

theorem readExact_of_le (h : n ≤ c.unread.length) :
    c.readExact n = .ok (c.unread.take n, ⟨c.unread.drop n, c.position + n⟩) := by
  rw [readExact]
  exact if_pos (by rw [List.length_take, Nat.min_eq_left h])

theorem readExact_of_lt (h : c.unread.length < n) : c.readExact n = .error .shortRead := by
  rw [readExact]
  exact if_neg (by rw [List.length_take]; omega)

end Cursor

namespace ContentHash

theorem absorb_of_ne_zero (c : Cursor) (h : Hasher) {n : Nat} (h0 : n ≠ 0) :
    absorb c h n = match c.readExact (min n blockSize) with
      | .error e => .error e
      | .ok (block, rest) => absorb rest (h.update block) (n - min n blockSize) := by
  rw [absorb]
  exact if_neg h0

/-- Feeding a range that exists block by block feeds all of it. -/
theorem absorb_of_le {c : Cursor} {h : Hasher} {n : Nat} (hn : n ≤ c.unread.length) :
    ∃ h', absorb c h n = .ok (h', ⟨c.unread.drop n, c.position + n⟩) ∧
      h'.absorbed = h.absorbed ++ c.unread.take n := by
  induction n using Nat.strongRecOn generalizing c h with
  | ind n ih =>
    by_cases h0 : n = 0
    · subst h0
      refine ⟨h, ?_, by simp⟩
      rw [absorb]
      simp
    · have hlt : n - min n blockSize < n := by
        simp only [blockSize]
        omega
      obtain ⟨h', habs, happ⟩ := ih (n - min n blockSize) hlt
        (c := ⟨c.unread.drop (min n blockSize), c.position + min n blockSize⟩)
        (h := h.update (c.unread.take (min n blockSize))) (by simp only [List.length_drop]; omega)
      refine ⟨h', ?_, ?_⟩
      · rw [absorb_of_ne_zero c h h0, Cursor.readExact_of_le (by omega)]
        simp only [habs, List.drop_drop]
        rw [Nat.add_sub_cancel' (Nat.min_le_left ..), Nat.add_assoc,
          Nat.add_sub_cancel' (Nat.min_le_left ..)]
      · rw [happ, Hasher.absorbed_update, List.append_assoc, ← List.take_add,
          Nat.add_sub_cancel' (Nat.min_le_left ..)]

/-- A range that runs past the end fails, whatever was read before. -/
theorem absorb_of_lt {c : Cursor} {h : Hasher} {n : Nat} (hn : c.unread.length < n) :
    absorb c h n = .error .shortRead := by
  induction n using Nat.strongRecOn generalizing c h with
  | ind n ih =>
    rw [absorb_of_ne_zero c h (Nat.ne_of_gt (Nat.zero_lt_of_lt hn))]
    by_cases hb : min n blockSize ≤ c.unread.length
    · have hlt : n - min n blockSize < n := by
        simp only [blockSize]
        omega
      rw [Cursor.readExact_of_le hb]
      exact ih _ hlt (by simp only [List.length_drop]; omega)
    · rw [Cursor.readExact_of_lt (Nat.lt_of_not_le hb)]

theorem ofRange_of_le {source : Bytes} {offset length : Nat} (h : length ≤ source.length - offset) :
    ofRange source offset length =
      .ok (.ofContent (source.slice offset length), offset + length) := by
  obtain ⟨h', habs, happ⟩ := absorb_of_le (c := .seek source offset) (h := .new) (n := length)
    (by rw [Cursor.seek, List.length_drop]; exact h)
  rw [ofRange, habs]
  simp only [Hasher.finish, happ, Hasher.absorbed_new, List.nil_append, Cursor.seek, Bytes.slice]

theorem ofRange_of_lt {source : Bytes} {offset length : Nat} (h : source.length - offset < length) :
    ofRange source offset length = .error .shortRead := by
  rw [ofRange, absorb_of_lt (by rw [Cursor.seek, List.length_drop]; exact h)]

/-- A hasher that took in these pieces one after the other has the hash of all of them together. -/
theorem finish_foldl_update (pieces : List Bytes) :
    (pieces.foldl Hasher.update .new).finish = .ofContent pieces.flatten := by
  rw [Hasher.finish, Hasher.absorbed_foldl, Hasher.absorbed_new, List.nil_append]

/-- Hashing a range block by block comes to an end for every source, place and length. It succeeds
just when the range is empty or lies in the source; then it gives the hash of exactly the bytes of
the range, which is also what a hasher gives that took them in in any pieces, and reading has got to
the end of the range. Otherwise bytes are missing. -/
theorem ofRange_eq_hash_of_pieces (source : Bytes) (offset length : Nat) :
    (ofRange source offset length =
      if length = 0 ∨ offset + length ≤ source.length then
        .ok (.ofContent (source.slice offset length), offset + length)
      else .error .shortRead) ∧
    (length = 0 ∨ offset + length ≤ source.length →
      (source.slice offset length).length = length) ∧
    ∀ pieces : List Bytes, pieces.flatten = source.slice offset length →
      (pieces.foldl Hasher.update .new).finish = .ofContent (source.slice offset length) := by
  refine ⟨?_, fun h => ?_, fun pieces hpieces => by rw [finish_foldl_update, hpieces]⟩
  · split
    · rename_i h
      exact ofRange_of_le (by omega)
    · rename_i h
      exact ofRange_of_lt (by omega)
  · rw [Bytes.length_slice]
    omega

/-- Two blocks and a byte; the byte behind the end; nothing at the largest place. -/
theorem ofRange_eq_hash_of_pieces_zeros :
    let source := Bytes.zeros 20000
    ofRange source 100 16385 = .ok (.ofContent (Bytes.zeros 16385), 16485) ∧
      ofRange source 20000 1 = .error .shortRead ∧
      ofRange source (2 ^ 64 - 1) 0 = .ok (.ofContent [], 2 ^ 64 - 1) ∧
      (source.slice 100 16385).length = 16385 ∧
      ([Bytes.zeros 8193, [], Bytes.zeros 8192].foldl Hasher.update .new).finish =
        .ofContent (Bytes.zeros 16385) := by
  intro source
  have hslice : source.slice 100 16385 = Bytes.zeros 16385 := by
    simp only [source, Bytes.slice, Bytes.zeros, List.drop_replicate, List.take_replicate]
    rfl
  have hlength : source.length = 20000 := Bytes.length_zeros 20000
  obtain ⟨hblocks, hfull, hpieces⟩ := ofRange_eq_hash_of_pieces source 100 16385
  obtain ⟨hbehind, -⟩ := ofRange_eq_hash_of_pieces source 20000 1
  obtain ⟨hnothing, -⟩ := ofRange_eq_hash_of_pieces source (2 ^ 64 - 1) 0
  rw [hslice] at hblocks hpieces
  refine ⟨hblocks.trans (if_pos (by omega)), hbehind.trans (if_neg (by omega)),
    hnothing.trans (if_pos (.inl rfl)), hfull (.inr (by omega)), hpieces _ ?_⟩
  simp only [Bytes.zeros, List.flatten_cons, List.flatten_nil, List.nil_append, List.append_nil,
    List.replicate_append_replicate]

end ContentHash

namespace Disk

/-- There is a hash of a range of a file exactly when the range can be sought and lies in the file.
-/
theorem hashRange_file (d : Disk) (id : FileId) (offset length : Nat) (h : ContentHash) :
    d.hashRange (.file id) offset length = .ok h ↔
      offset ≤ largestOffset ∧ length ≤ (d.content id).length - offset ∧
        h = .ofContent ((d.content id).slice offset length) := by
  rw [hashRange]
  by_cases ho : largestOffset < offset
  · simp [ho, Nat.not_le.2 ho]
  · rw [if_neg ho]
    by_cases hl : length ≤ (d.content id).length - offset
    · simp [ContentHash.ofRange_of_le hl, Except.map, Nat.le_of_not_lt ho, hl, eq_comm]
    · simp [ContentHash.ofRange_of_lt (Nat.lt_of_not_le hl), Except.map, hl]

end Disk

end FileMesh
