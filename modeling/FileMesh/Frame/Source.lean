import FileMesh.Bytes

/-!
# Byte streams that arrive in segments

A stream hands out its bytes in segments, as a connection delivers them, and then ends: closed by
the remote end or reset. What a reader gets depends on the bytes only and not on where they were
cut.
-/

namespace FileMesh

/-- How a stream ends once its bytes are read: the remote end closed it or reset it. -/
inductive StreamEnd where
  | closed
  | reset
deriving DecidableEq, Repr, Inhabited

/-- A stream of bytes in segments. A read gives bytes of one segment only. -/
structure Source where
  segments : List Bytes
  ending : StreamEnd
deriving DecidableEq, Repr, Inhabited

namespace Source

def unread (s : Source) : Bytes := s.segments.flatten

/-- The first `n` bytes of the segments and the segments after them. -/
def gather : Nat → List Bytes → Option (Bytes × List Bytes)
  | 0, segments => some ([], segments)
  | _ + 1, [] => none
  | n + 1, segment :: rest =>
    if n + 1 ≤ segment.length then some (segment.take (n + 1), segment.drop (n + 1) :: rest)
    else match gather (n + 1 - segment.length) rest with
      | some (bytes, rest) => some (segment ++ bytes, rest)
      | none => none

/-- Reads exactly `n` bytes. If the stream ends before them, what there was is lost. -/
def readExact (s : Source) (n : Nat) : Except StreamEnd Bytes × Source :=
  match gather n s.segments with
  | some (bytes, rest) => (.ok bytes, { s with segments := rest })
  | none => (.error s.ending, { s with segments := [] })

theorem gather_eq (n : Nat) (segments : List Bytes) :
    (gather n segments).map (fun r => (r.1, r.2.flatten)) =
      if n ≤ segments.flatten.length then
        some (segments.flatten.take n, segments.flatten.drop n)
      else none := by
  induction segments generalizing n with
  | nil => cases n <;> simp [gather]
  | cons segment rest ih =>
    cases n with
    | zero => simp [gather]
    | succ n =>
      simp only [gather]
      split
      · rename_i h
        simp only [Option.map_some, List.flatten_cons, List.length_append]
        rw [if_pos (by omega), List.take_append_of_le_length h, List.drop_append_of_le_length h]
      · rename_i h
        have ih := ih (n + 1 - segment.length)
        split <;> rename_i hg
        · rw [hg] at ih
          simp only [Option.map_some] at ih
          split at ih
          · rename_i hle
            simp only [Option.some.injEq, Prod.mk.injEq] at ih
            simp only [Option.map_some, List.flatten_cons, List.length_append]
            have hl : segment.length ≤ n + 1 := by omega
            rw [if_pos (by omega), ih.1, ih.2, List.take_append, List.drop_append,
              List.take_of_length_le hl, List.drop_of_length_le hl, List.nil_append]
          · cases ih
        · rw [hg] at ih
          simp only [Option.map_none] at ih
          split at ih
          · cases ih
          · simp only [Option.map_none, List.flatten_cons, List.length_append]
            rw [if_neg (by omega)]

theorem readExact_ok {s : Source} {n : Nat} (h : n ≤ s.unread.length) :
    ∃ t : Source, s.readExact n = (.ok (s.unread.take n), t) ∧
      t.unread = s.unread.drop n ∧ t.ending = s.ending := by
  have hg := gather_eq n s.segments
  rw [← unread, if_pos h] at hg
  obtain ⟨⟨bytes, rest⟩, hr, hb⟩ := Option.map_eq_some_iff.1 hg
  simp only [Prod.mk.injEq] at hb
  refine ⟨{ s with segments := rest }, ?_, hb.2, rfl⟩
  simp only [readExact, hr, unread, hb.1]

theorem readExact_short {s : Source} {n : Nat} (h : s.unread.length < n) :
    s.readExact n = (.error s.ending, { s with segments := [] }) := by
  have hg := gather_eq n s.segments
  rw [← unread, if_neg (Nat.not_le.2 h)] at hg
  simp only [readExact, Option.map_eq_none_iff.1 hg]

theorem ending_readExact (s : Source) (n : Nat) : (s.readExact n).2.ending = s.ending := by
  simp only [readExact]
  split <;> rfl

theorem length_unread_readExact (s : Source) (n : Nat) :
    (s.readExact n).2.unread.length = s.unread.length - n := by
  rcases Nat.lt_or_ge s.unread.length n with h | h
  · rw [readExact_short h]
    simp only [unread, List.flatten_nil, List.length_nil] at *
    omega
  · obtain ⟨t, ht, hu, _⟩ := readExact_ok h
    rw [ht, hu, List.length_drop]

end Source

end FileMesh
