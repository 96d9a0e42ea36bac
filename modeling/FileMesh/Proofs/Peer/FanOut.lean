import FileMesh.Proofs.Peer.Reach

/-!
# What a broadcast does to everyone

A broadcast goes to its targets one after the other, and some of them fail: at once, after a part
of the frame, or because they are closed already. What happens to each of them is decided by its own
connection. So the report, the members that stay and the bytes of every connection can be read off
the connections as they were before, and they are the same without any of those that failed.
-/

namespace FileMesh

/-! ## Frames that are cut off -/

namespace Sink

variable {s t : Sink} {kind : MessageType} {payload data : Bytes} {e : IoError}

theorem progress_go_le (uptake : Nat → Nat → Nat) (total offered done : Nat) :
    progress.go uptake total offered done ≤ done + offered := by
  induction offered using Nat.strongRecOn generalizing total done with
  | ind offered ih =>
    rw [progress.go]
    split
    · omega
    · dsimp only
      split
      · omega
      · have hrest := ih (offered - min (uptake total offered) offered) (by omega)
          (total + min (uptake total offered) offered) (done + min (uptake total offered) offered)
        omega

/-- A write that fails stops before the end of its data. -/
theorem eq_push_of_writeAll_error (h : s.writeAll data = (.error e, t)) :
    ∃ n < data.length, t = s.push (data.take n) := by
  have hle : progress s.uptake s.taken.length data.length ≤ data.length :=
    (progress_go_le _ _ _ 0).trans_eq (Nat.zero_add _)
  rw [writeAll] at h
  split at h
  · cases h
  · rename_i hne
    split at h
    · cases h
      exact ⟨0, List.length_pos_iff.2 hne, by simp⟩
    · dsimp only at h
      split at h
      · cases h
      · cases h
        exact ⟨_, by omega, rfl⟩

/-- A frame whose writing failed misses some of its end, unless it was the flush that failed. -/
theorem eq_push_of_writeFrame_error (h : s.writeFrame kind payload = (.error e, t)) :
    ∃ n ≤ (FrameHeader.frame kind payload).length,
      t = s.push ((FrameHeader.frame kind payload).take n) ∧
        (s.Flushes → n < (FrameHeader.frame kind payload).length) := by
  rw [writeFrame] at h
  rw [FrameHeader.frame]
  generalize (FrameHeader.new kind (UInt64.ofNat payload.length)).encode = header at h
  split at h
  · rename_i hheader
    cases h
    obtain ⟨n, hn, rfl⟩ := eq_push_of_writeAll_error hheader
    have hlt : n < (header ++ payload).length := by
      rw [List.length_append]
      omega
    exact ⟨n, hlt.le, by rw [List.take_append_of_le_length hn.le], fun _ => hlt⟩
  · rename_i u hheader
    obtain rfl := eq_push_of_writeAll hheader
    split at h
    · rename_i hpayload
      cases h
      obtain ⟨n, hn, rfl⟩ := eq_push_of_writeAll_error hpayload
      have hlt : header.length + n < (header ++ payload).length := by
        rw [List.length_append]
        omega
      exact ⟨_, hlt.le, by rw [push_push, List.take_length_add_append], fun _ => hlt⟩
    · rename_i v hpayload
      obtain rfl := eq_push_of_writeAll hpayload
      obtain ⟨hfailed, rfl⟩ := Prod.mk.inj h
      refine ⟨_, le_rfl, by rw [List.take_length, push_push], fun hflush => ?_⟩
      cases ((hflush.push header).push payload).flush.symm.trans hfailed

end Sink

/-! ## One connection -/

namespace Peer

variable {p : Peer} {kind : MessageType} {payload : Bytes}

/-- Whether the connection takes the whole of a frame. -/
def takes (p : Peer) (kind : MessageType) (payload : Bytes) : Bool :=
  (p.sendFrame kind payload).1.isOk

/-- The connection after a broadcast went to it. It is closed if it did not take the frame. -/
def attempt (p : Peer) (kind : MessageType) (payload : Bytes) : Peer :=
  if p.takes kind payload then (p.sendFrame kind payload).2 else (p.sendFrame kind payload).2.close

theorem attempt_of_takes (h : p.takes kind payload = true) :
    p.attempt kind payload = p.push (FrameHeader.frame kind payload) := by
  rw [attempt, if_pos h]
  rw [takes] at h
  cases hsend : p.sendFrame kind payload with
  | mk result q =>
    rw [hsend] at h
    cases result with
    | error e => cases h
    | ok _ => rw [eq_push_of_sendFrame hsend]

theorem takes_of_willing (h : p.sink.Willing) (kind : MessageType) (payload : Bytes) :
    p.takes kind payload = true := by
  rw [takes, sendFrame_of_willing h]
  rfl

theorem attempt_of_not_takes (h : p.takes kind payload = false) :
    (p.attempt kind payload).isClosed = true ∧
      ∃ n ≤ (FrameHeader.frame kind payload).length, (p.attempt kind payload).sink.taken =
        p.sink.taken ++ (FrameHeader.frame kind payload).take n ∧
        (p.sink.Flushes → n < (FrameHeader.frame kind payload).length) := by
  rw [attempt, if_neg (by rw [h]; exact Bool.false_ne_true)]
  refine ⟨isClosed_close _, ?_⟩
  rw [taken_close]
  rw [takes, sendFrame] at h
  cases hwrite : p.sink.writeFrame kind payload with
  | mk result sink =>
    rw [hwrite] at h
    cases result with
    | ok _ => cases h
    | error e =>
      obtain ⟨n, hn, hsink, hcut⟩ := Sink.eq_push_of_writeFrame_error hwrite
      refine ⟨n, hn, ?_, hcut⟩
      rw [sendFrame, hwrite, hsink]
      rfl

/-- A connection that flushes took the frame if and only if all bytes of the frame are there. -/
theorem takes_iff (hflush : p.sink.Flushes) : p.takes kind payload = true ↔
    (p.attempt kind payload).sink.taken = p.sink.taken ++ FrameHeader.frame kind payload := by
  constructor
  · intro h
    rw [attempt_of_takes h]
    rfl
  · intro h
    by_contra hnot
    obtain ⟨-, n, -, htaken, hcut⟩ := attempt_of_not_takes (Bool.eq_false_iff.2 hnot)
    have hn := hcut hflush
    have hlength := congrArg List.length (List.append_cancel_left (htaken.symm.trans h))
    rw [List.length_take] at hlength
    omega

end Peer

namespace PeerSet

variable {s t : PeerSet} {id target : PeerId} {ids : List PeerId} {kind : MessageType}
  {payload : Bytes} {m : Message} {skip : Option PeerId} {p : Peer}

/-- The members that a broadcast goes to. -/
def targets (s : PeerSet) (skip : Option PeerId) : List PeerId :=
  s.members.filter fun id => some id != skip

/-- Whether the connection with a number takes the whole of a frame. -/
def takes (s : PeerSet) (kind : MessageType) (payload : Bytes) (id : PeerId) : Bool :=
  (s.peer? id).any fun p => p.takes kind payload

/-- The same connections without one of the members. -/
def without (s : PeerSet) (id : PeerId) : PeerSet :=
  { s with members := s.members.filter fun other => other != id }

@[simp] theorem mem_targets : id ∈ s.targets skip ↔ id ∈ s.members ∧ some id ≠ skip := by
  simp [targets]

theorem takes_of_peer? (hp : s.peer? id = some p) (kind : MessageType) (payload : Bytes) :
    s.takes kind payload id = p.takes kind payload := by
  rw [takes, hp, Option.any_some]

/-- Who is a member does not matter for what a connection takes. -/
@[simp] theorem takes_without (s : PeerSet) (id other : PeerId) (kind : MessageType)
    (payload : Bytes) : (s.without id).takes kind payload other = s.takes kind payload other := rfl

theorem targets_without (s : PeerSet) (id : PeerId) (skip : Option PeerId) :
    (s.without id).targets skip = (s.targets skip).filter fun other => other != id := by
  rw [targets, without, List.filter_comm]
  rfl

/-! ## A frame that goes to several connections -/

theorem isOk_sendFrame (s : PeerSet) (id : PeerId) (kind : MessageType) (payload : Bytes) :
    (s.sendFrame id kind payload).1.isOk = s.takes kind payload id := by
  cases hp : s.peer? id with
  | none =>
    rw [sendFrame, takes, hp]
    rfl
  | some p =>
    rw [sendFrame_fst hp, takes_of_peer? hp, Peer.takes]

/-- Sending to one connection does not change what another takes. -/
theorem takes_sendFrame_of_ne (h : target ≠ id) (s : PeerSet) (kind : MessageType)
    (payload : Bytes) :
    (s.sendFrame target kind payload).2.takes kind payload id = s.takes kind payload id := by
  rw [takes, peer?_sendFrame, if_neg h, takes]

theorem sent_sendEach_cons (kind : MessageType) (payload : Bytes) (target : PeerId)
    (rest : List PeerId) (s : PeerSet) : (sendEach kind payload (target :: rest) s).1.sent =
      (sendEach kind payload rest (s.sendFrame target kind payload).2).1.sent +
        (if (s.sendFrame target kind payload).1.isOk then 1 else 0) := by
  rw [sendEach]
  split <;> rename_i h <;> rw [h] <;> rfl

/-- The connections that are counted are those that take the frame, and those that are listed are
the others. -/
theorem report_sendEach (kind : MessageType) (payload : Bytes) (hnodup : ids.Nodup) :
    (sendEach kind payload ids s).1.sent = (ids.filter (s.takes kind payload)).length ∧
      (sendEach kind payload ids s).1.failed = ids.filter fun id => !s.takes kind payload id := by
  induction ids generalizing s with
  | nil => exact ⟨rfl, rfl⟩
  | cons target rest ih =>
    obtain ⟨hnew, hnodup⟩ := List.nodup_cons.1 hnodup
    obtain ⟨hsent, hfailed⟩ := ih (s := (s.sendFrame target kind payload).2) hnodup
    -- The rest of the connections are as they were before the first got its frame.
    have hsame : ∀ id ∈ rest,
        (s.sendFrame target kind payload).2.takes kind payload id = s.takes kind payload id := by
      intro id hid
      have hne : target ≠ id := fun h => hnew (h ▸ hid)
      exact takes_sendFrame_of_ne hne s kind payload
    rw [List.filter_congr hsame] at hsent
    rw [List.filter_congr fun id hid => congrArg not (hsame id hid)] at hfailed
    rw [sent_sendEach_cons, failed_sendEach_cons, hsent, hfailed, isOk_sendFrame]
    cases htarget : s.takes kind payload target <;> simp [htarget]

theorem peer?_sendEach_of_none (kind : MessageType) (payload : Bytes) (hp : s.peer? id = none) :
    (sendEach kind payload ids s).2.peer? id = none := by
  induction ids generalizing s with
  | nil => exact hp
  | cons target rest ih =>
    rw [sendEach_cons_snd]
    apply ih
    rw [peer?_sendFrame, hp]
    split <;> rfl

/-! ## Broadcasts -/

/-- A broadcast of `m`, which leads to `report` and `t`, does to everyone what the connections of
`s` allow. -/
structure FansOut (s : PeerSet) (m : Message) (payload : Bytes) (skip : Option PeerId)
    (report : Report) (t : PeerSet) : Prop where
  -- Those that take the frame are counted and the others are listed, in the order of the members.
  sent : report.sent = ((s.targets skip).filter (s.takes m.type payload)).length
  failed : report.failed = (s.targets skip).filter fun id => !s.takes m.type payload id
  -- Whoever takes whatever is written is not among the latter, who leave and nobody else.
  willing : ∀ id p, s.peer? id = some p → p.sink.Willing → id ∉ report.failed
  members : t.members = s.members.filter fun id => id ∉ report.failed
  -- Each target is tried once and nobody else is touched.
  target : ∀ id ∈ s.targets skip, t.peer? id = (s.peer? id).map fun p => p.attempt m.type payload
  other : ∀ id, id ∉ s.targets skip → t.peer? id = s.peer? id

namespace FansOut

variable {report : Report}

theorem not_takes (h : s.FansOut m payload skip report t) (hid : id ∈ report.failed) :
    id ∈ s.targets skip ∧ s.takes m.type payload id = false := by
  rw [h.failed, List.mem_filter] at hid
  simpa using hid

theorem takes_of_reached (h : s.FansOut m payload skip report t) (hid : id ∈ s.targets skip)
    (hreached : id ∉ report.failed) : s.takes m.type payload id = true := by
  rw [h.failed, List.mem_filter] at hreached
  simpa [hid] using hreached

/-- Whoever is skipped stays. -/
theorem mem_members_of_skip (h : s.FansOut m payload (some id) report t) (hid : id ∈ s.members) :
    id ∈ t.members := by
  rw [h.members, List.mem_filter]
  refine ⟨hid, ?_⟩
  have hnot : id ∉ report.failed := by
    intro hfailed
    exact (mem_targets.1 (h.not_takes hfailed).1).2 rfl
  simpa using hnot

end FansOut

theorem fansOut_broadcast (hnodup : s.members.Nodup) (he : m.encode = .ok payload)
    (skip : Option PeerId) :
    s.FansOut m payload skip (s.broadcast m skip).1 (s.broadcast m skip).2 := by
  have htargets : (s.targets skip).Nodup := hnodup.filter _
  obtain ⟨hsent, hfailed⟩ := report_sendEach (s := s) m.type payload htargets
  have hreport : (s.broadcast m skip).1 = (sendEach m.type payload (s.targets skip) s).1 := by
    simp only [broadcast, he, targets]
  have hafter : (s.broadcast m skip).2 = (sendEach m.type payload (s.targets skip) s).2.dropAll
      (sendEach m.type payload (s.targets skip) s).1.failed := by
    simp only [broadcast, he, targets]
  exact {
    sent := hreport ▸ hsent
    failed := hreport ▸ hfailed
    willing := by
      intro id p hp hw hlisted
      rw [hreport, hfailed, List.mem_filter, takes_of_peer? hp, Peer.takes_of_willing hw] at hlisted
      cases hlisted.2
    members := by
      rw [members_broadcast]
      simp
    target := by
      intro id hid
      cases hp : s.peer? id with
      | none =>
        rw [hafter, peer?_dropAll, peer?_sendEach_of_none m.type payload hp]
        split <;> rfl
      | some p =>
        obtain ⟨hpeer, hlisted⟩ := sendEach_of_mem m.type payload htargets hid hp
        rw [hafter, peer?_dropAll, hpeer, Option.map_some]
        by_cases htakes : (p.sendFrame m.type payload).1.isOk = true <;>
          simp [hlisted, Peer.attempt, Peer.takes, htakes]
    other := by
      intro id hid
      rw [hafter, peer?_dropAll, if_neg (not_mem_failed_sendEach m.type payload hid),
        peer?_sendEach_of_not_mem m.type payload hid] }

/-- Without one of those that failed, everyone else fares the same. -/
theorem FansOut.eq_of_without {report report' : Report} {u : PeerSet}
    (h : s.FansOut m payload skip report t) (hfailed : id ∈ report.failed)
    (h' : (s.without id).FansOut m payload skip report' u) :
    report'.sent = report.sent ∧ report'.failed = report.failed.filter (· != id) ∧
      u.members = t.members ∧ ∀ other, other ≠ id → u.peer? other = t.peer? other := by
  obtain ⟨htarget, hnot⟩ := h.not_takes hfailed
  have hlisted : report'.failed = report.failed.filter (· != id) := by
    rw [h'.failed, h.failed, targets_without, List.filter_comm]
    rfl
  refine ⟨?_, hlisted, ?_, ?_⟩
  · rw [h'.sent, h.sent, targets_without, List.filter_filter]
    congr 1
    apply List.filter_congr
    intro other _
    by_cases hother : other = id
    · simp [hother, hnot]
    · simp [hother]
  · rw [h'.members, h.members, hlisted, without, List.filter_filter]
    apply List.filter_congr
    intro other _
    by_cases hother : other = id
    · simp [hother, hfailed]
    · simp [hother]
  · intro other hother
    by_cases hmem : other ∈ s.targets skip
    · rw [h.target other hmem, h'.target other]
      · rfl
      · rw [targets_without, List.mem_filter]
        exact ⟨hmem, by simpa using hother⟩
    · rw [h.other other hmem, h'.other other]
      · rfl
      · rw [targets_without, List.mem_filter]
        exact fun hboth => hmem hboth.1

/-- A message that cannot be encoded goes to nobody and nobody leaves. Any other message is tried
once on every member but the one that is skipped. Those that took the whole frame are counted and
stay; the others are listed in order, got less than the frame unless only its flush failed, leave
and are closed. The one that is skipped gets nothing and stays, whatever its connection is like. Had
one of those that failed not been a member, everyone else would have fared the same. -/
theorem broadcast_fanOut (hnodup : s.members.Nodup) (m : Message) (skip : Option PeerId) :
    (∀ e, m.encode = .error e → s.broadcast m skip = (⟨0, []⟩, s)) ∧
    ∀ payload, m.encode = .ok payload →
      let report := (s.broadcast m skip).1
      let t := (s.broadcast m skip).2
      s.FansOut m payload skip report t ∧
      (∀ id p, id ∈ s.targets skip → s.peer? id = some p →
        id ∉ report.failed ∧ id ∈ t.members ∧ t.peer? id = some (p.push m.frame) ∨
        id ∈ report.failed ∧ id ∉ t.members ∧ ∃ q, t.peer? id = some q ∧ q.isClosed = true ∧
          ∃ n ≤ m.frame.length, q.sink.taken = p.sink.taken ++ m.frame.take n ∧
            (p.sink.Flushes → n < m.frame.length)) ∧
      (∀ id, skip = some id → t.peer? id = s.peer? id ∧ (id ∈ s.members → id ∈ t.members)) ∧
      ∀ id ∈ report.failed,
        let u := (s.without id).broadcast m skip
        u.1.sent = report.sent ∧ u.1.failed = report.failed.filter (· != id) ∧
          u.2.members = t.members ∧ ∀ other, other ≠ id → u.2.peer? other = t.peer? other := by
  refine ⟨fun e he => broadcast_of_encode_error he s skip, fun payload he => ?_⟩
  intro report t
  have h : s.FansOut m payload skip report t := fansOut_broadcast hnodup he skip
  refine ⟨h, ?_, ?_, ?_⟩
  · intro id p hid hp
    have hmember := (mem_targets.1 hid).1
    have hpeer := h.target id hid
    have htakes := takes_of_peer? hp m.type payload
    rw [hp, Option.map_some] at hpeer
    have hstays : id ∈ t.members ↔ id ∉ report.failed := by
      rw [h.members, List.mem_filter]
      simp [hmember]
    rw [Message.frame_of_encode he]
    by_cases hfailed : id ∈ report.failed
    · have hcut := (h.not_takes hfailed).2
      rw [htakes] at hcut
      obtain ⟨hclosed, hbytes⟩ := Peer.attempt_of_not_takes hcut
      exact .inr ⟨hfailed, fun hin => hstays.1 hin hfailed, _, hpeer, hclosed, hbytes⟩
    · have hwhole := h.takes_of_reached hid hfailed
      rw [htakes] at hwhole
      rw [Peer.attempt_of_takes hwhole] at hpeer
      exact .inl ⟨hfailed, hstays.2 hfailed, hpeer⟩
  · rintro id rfl
    exact ⟨h.other id fun hid => (mem_targets.1 hid).2 rfl, h.mem_members_of_skip⟩
  · intro id hfailed u
    exact h.eq_of_without hfailed (fansOut_broadcast (hnodup.filter _) he skip)

/-- One connection is healthy, one takes small pieces, and the others fail at once, in the header,
in the payload, after they were closed, or are dead but skipped. -/
theorem broadcast_fanOut_mixed :
    let sinks : List Sink := [.unlimited, .limited (some 0) none false,
      .limited (some 5) (some 3) true, .limited (some 12) none false, Sink.shutdown .unlimited,
      .limited (some 0) none true, .limited none (some 7) false]
    let s : PeerSet := ⟨sinks.map (.connected default), [0, 1, 2, 3, 4, 5, 6]⟩
    let m : Message := .addrSelf ⟨.loopback, 9⟩
    let t := (s.broadcast m (some 5)).2
    s.members.Nodup ∧ (s.broadcast m (some 5)).1 = ⟨2, [1, 2, 3, 4]⟩ ∧ t.members = [0, 5, 6] ∧
      (t.peer? 3).map (fun p => (p.isClosed, p.sink.taken)) = some (true, m.frame.take 12) ∧
      (t.peer? 5).map (fun p => (p.isClosed, p.sink.taken)) = some (false, []) ∧
      ((s.without 3).broadcast m (some 5)).1.failed = [1, 2, 4] := by
  intro sinks s m t
  have hnodup : s.members.Nodup := by decide
  have hreport : (s.broadcast m (some 5)).1 = ⟨2, [1, 2, 3, 4]⟩ := by decide +kernel
  have hencode : m.encode = .ok [127, 0, 0, 1, 0, 9] := by decide
  obtain ⟨h, -, hskip, hothers⟩ := (broadcast_fanOut hnodup m (some 5)).2 _ hencode
  have hwithout := hothers 3 (by rw [hreport]; decide)
  refine ⟨hnodup, hreport, ?_, by decide +kernel, ?_, ?_⟩
  · rw [h.members, hreport]
    decide
  · rw [(hskip 5 rfl).1]
    rfl
  · rw [hwithout.2.1, hreport]
    decide

end PeerSet

end FileMesh
