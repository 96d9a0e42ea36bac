import FileMesh.Proofs.Frames

/-!
# Writing until a write fails

A sink takes what it is offered in pieces of any size until it takes nothing, and from then on it
takes nothing any more. Each write of it is then whole, or it stops somewhere inside its data and
the sink is dead: no later frame gets even its first byte across. A frame that is flushed for
nothing was taken whole, so such a sink has to flush without failing for its frames to be whole or
cut.
-/

namespace FileMesh

namespace Sink

variable {s : Sink}

/-- When a write call fails, so do those after it: at the same amount of bytes no other offer is
taken. -/
def Steady (s : Sink) : Prop :=
  ∀ total offered offered', offered ≠ 0 → s.uptake total offered = 0 → s.uptake total offered' = 0

/-- No write call takes anything. -/
def Dead (s : Sink) : Prop :=
  s.refusesShut = true ∧ s.isShut = true ∨ ∀ offered, s.uptake s.taken.length offered = 0

/-- The sink after it took these bytes. -/
def push (s : Sink) (b : Bytes) : Sink := { s with taken := s.taken ++ b }

@[simp] theorem taken_push (s : Sink) (b : Bytes) : (s.push b).taken = s.taken ++ b := rfl

theorem push_push (s : Sink) (b c : Bytes) : (s.push b).push c = s.push (b ++ c) := by
  rw [push, push, push, List.append_assoc]

@[simp] theorem push_nil (s : Sink) : s.push [] = s := by
  rw [push, List.append_nil]

/-- Every sink that stops at a budget is steady. -/
theorem steady_limited (budget perWrite : Option Nat) (stalls : Bool) :
    (limited budget perWrite stalls).Steady := by
  intro total offered offered' hoffered htake
  cases budget with
  | none =>
    cases perWrite with
    | none => exact absurd htake hoffered
    | some most =>
      have hmost : min offered most = 0 := htake
      change min offered' most = 0
      omega
  | some budget =>
    cases perWrite with
    | none =>
      have hleft : min offered (budget - total) = 0 := htake
      change min offered' (budget - total) = 0
      omega
    | some most =>
      have hleft : min (min offered most) (budget - total) = 0 := htake
      change min (min offered' most) (budget - total) = 0
      omega

theorem Steady.push (h : s.Steady) (b : Bytes) : (s.push b).Steady := h

theorem Steady.shutdown (h : s.Steady) : s.shutdown.Steady := h

theorem Flushes.push (h : s.Flushes) (b : Bytes) : (s.push b).Flushes := h

theorem Flushes.shutdown (h : s.Flushes) : s.shutdown.Flushes := h

theorem flushes_limited (budget perWrite : Option Nat) (stalls : Bool) :
    (limited budget perWrite stalls).Flushes := fun _ => rfl

/-- A sink that refuses what comes after a shutdown is dead from then on. -/
theorem dead_shutdown (h : s.refusesShut = true) : s.shutdown.Dead := .inl ⟨h, s.isShut_shutdown⟩

/-- Shutting a dead sink down brings it no life. -/
theorem Dead.shutdown (h : s.Dead) : s.shutdown.Dead := by
  rcases h with ⟨hrefuses, -⟩ | hstop
  · exact dead_shutdown hrefuses
  · exact .inr hstop

/-! ## Write calls one after the other -/

theorem progress_go_of_eq_zero {uptake : Nat → Nat → Nat} {total : Nat}
    (h : ∀ offered, uptake total offered = 0) (offered done : Nat) :
    progress.go uptake total offered done = done := by
  rw [progress.go]
  by_cases h0 : offered = 0
  · rw [dif_pos h0]
  · rw [dif_neg h0, dif_pos (by rw [h, Nat.zero_min])]

/-- All of the offer gets across, or a part after which nothing does. -/
theorem Steady.progress_go (h : s.Steady) (total offered done : Nat) :
    progress.go s.uptake total offered done = done + offered ∨
      ∃ k < offered, progress.go s.uptake total offered done = done + k ∧
        ∀ offered', s.uptake (total + k) offered' = 0 := by
  induction offered using Nat.strongRecOn generalizing total done with
  | ind offered ih =>
    rw [progress.go]
    by_cases h0 : offered = 0
    · rw [dif_pos h0, h0]
      exact .inl rfl
    · by_cases hn : min (s.uptake total offered) offered = 0
      · rw [dif_neg h0, dif_pos hn]
        exact .inr ⟨0, Nat.pos_of_ne_zero h0, rfl, fun offered' =>
          h total offered offered' h0 (by omega)⟩
      · rw [dif_neg h0, dif_neg hn]
        rcases ih (offered - min (s.uptake total offered) offered) (by omega)
          (total + min (s.uptake total offered) offered)
          (done + min (s.uptake total offered) offered) with hall | ⟨k, hk, hgo, hstop⟩
        · exact .inl (by omega)
        · refine .inr ⟨min (s.uptake total offered) offered + k, by omega, by omega, ?_⟩
          rwa [← Nat.add_assoc]

/-! ## Writes and frames -/

theorem Dead.writeAll (h : s.Dead) {data : Bytes} (hne : data ≠ []) :
    ∃ e, s.writeAll data = (.error e, s) := by
  rw [Sink.writeAll, if_neg hne]
  by_cases hshut : (s.refusesShut && s.isShut) = true
  · exact ⟨_, if_pos hshut⟩
  · have hstop := h.resolve_left fun hboth => hshut (Bool.and_eq_true_iff.2 hboth)
    have hn : progress s.uptake s.taken.length data.length = 0 := progress_go_of_eq_zero hstop _ 0
    have hlen : 0 ≠ data.length := fun hlen => hne (List.length_eq_zero_iff.1 hlen.symm)
    simp only [if_neg hshut, hn, if_neg hlen, List.take_zero, List.append_nil]
    exact ⟨_, rfl⟩

theorem Steady.writeAll (h : s.Steady) (data : Bytes) :
    s.writeAll data = (.ok (), s.push data) ∨
      ∃ e, ∃ n < data.length, s.writeAll data = (.error e, s.push (data.take n)) ∧
        (s.push (data.take n)).Dead := by
  by_cases hne : data = []
  · rw [hne, writeAll_nil, push_nil]
    exact .inl rfl
  have hlen : 0 < data.length := List.length_pos_iff.2 hne
  by_cases hshut : (s.refusesShut && s.isShut) = true
  · have hdead : s.Dead := .inl (Bool.and_eq_true_iff.1 hshut)
    obtain ⟨e, he⟩ := hdead.writeAll hne
    refine .inr ⟨e, 0, hlen, ?_⟩
    rw [he, List.take_zero, push_nil]
    exact ⟨rfl, hdead⟩
  rw [Sink.writeAll, if_neg hne, if_neg hshut]
  rcases h.progress_go s.taken.length data.length 0 with hall | ⟨k, hk, hgo, hstop⟩
  · have hn : progress s.uptake s.taken.length data.length = data.length :=
      hall.trans (Nat.zero_add _)
    simp only [hn, if_true, List.take_length]
    exact .inl rfl
  · have hn : progress s.uptake s.taken.length data.length = k := hgo.trans (Nat.zero_add _)
    have hdead : (s.push (data.take k)).Dead := by
      refine .inr fun offered => ?_
      rw [taken_push, List.length_append, List.length_take_of_le hk.le]
      exact hstop offered
    simp only [hn, if_neg hk.ne]
    exact .inr ⟨_, k, hk, rfl, hdead⟩

theorem encode_ne_nil (header : FrameHeader) : header.encode ≠ [] := List.cons_ne_nil _ _

/-- A dead sink takes nothing of a frame: its header is never empty. -/
theorem Dead.writeFrame (h : s.Dead) (kind : MessageType) (payload : Bytes) :
    ∃ e, s.writeFrame kind payload = (.error e, s) := by
  obtain ⟨e, he⟩ := h.writeAll (encode_ne_nil (.new kind (UInt64.ofNat payload.length)))
  refine ⟨e, ?_⟩
  rw [Sink.writeFrame, he]

/-- A frame is taken whole, or only a beginning of it is and the sink is dead. -/
theorem Steady.writeFrame (h : s.Steady) (hflush : s.Flushes) (kind : MessageType)
    (payload : Bytes) :
    s.writeFrame kind payload = (.ok (), s.push (FrameHeader.frame kind payload)) ∨
      ∃ e part, s.writeFrame kind payload = (.error e, s.push part) ∧ (s.push part).Dead ∧
        part <+: FrameHeader.frame kind payload ∧ part ≠ FrameHeader.frame kind payload := by
  have hproper {data : Bytes} {n : Nat} (hn : n < data.length) : data.take n ≠ data := by
    intro heq
    have := congrArg List.length heq
    rw [List.length_take] at this
    omega
  rw [FrameHeader.frame]
  generalize hheader : (FrameHeader.new kind (UInt64.ofNat payload.length)).encode = header
  rcases h.writeAll header with hok | ⟨e, n, hn, herr, hdead⟩
  · rcases (h.push header).writeAll payload with hok' | ⟨e, n, hn, herr, hdead⟩
    · refine .inl ?_
      have hflushed := (hflush.push (header ++ payload)).flush
      simp only [Sink.writeFrame, hheader, hok, hok', hflushed, push_push]
    · rw [push_push] at herr hdead
      refine .inr ⟨e, header ++ payload.take n, ?_, hdead, ?_, ?_⟩
      · simp only [Sink.writeFrame, hheader, hok, herr]
      · exact (List.prefix_append_right_inj _).2 (List.take_prefix _ _)
      · exact fun heq => hproper hn (List.append_cancel_left heq)
  · refine .inr ⟨e, header.take n, ?_, hdead, ?_, ?_⟩
    · simp only [Sink.writeFrame, hheader, herr]
    · exact (List.take_prefix _ _).trans (List.prefix_append _ _)
    · intro heq
      have := congrArg List.length heq
      rw [List.length_take, List.length_append] at this
      omega

end Sink

end FileMesh
