import FileMesh.Proofs.Peer.Connection

/-!
# Broadcasts that reach everyone

When every member takes what is written to it, a broadcast appends one frame to each member but the
one that is left out, and nothing else changes.
-/

namespace FileMesh

/-- The connection after these bytes went out. -/
def Peer.push (p : Peer) (b : Bytes) : Peer := { p with sink := p.sink.push b }

theorem Peer.sendFrame_of_willing {p : Peer} (h : p.sink.Willing) (kind : MessageType)
    (payload : Bytes) : p.sendFrame kind payload =
      (.ok (), p.push (FrameHeader.frame kind payload)) := by
  rw [Peer.sendFrame, h.writeFrame]
  rfl

namespace PeerSet

variable {s : PeerSet} {m : Message}

/-- Every one of these connections takes what is written to it. -/
def WillingAt (s : PeerSet) (ids : List PeerId) : Prop :=
  ∀ id ∈ ids, ∃ p, s.peer? id = some p ∧ p.sink.Willing

theorem sendEach_of_willing (kind : MessageType) (payload : Bytes) {ids : List PeerId}
    (hnodup : ids.Nodup) (hwilling : s.WillingAt ids) :
    (sendEach kind payload ids s).1.failed = [] ∧
      ∀ id, (sendEach kind payload ids s).2.peer? id =
        if id ∈ ids then (s.peer? id).map (·.push (FrameHeader.frame kind payload))
        else s.peer? id := by
  induction ids generalizing s with
  | nil => exact ⟨rfl, fun id => rfl⟩
  | cons target rest ih =>
    obtain ⟨hnew, hnodup⟩ := List.nodup_cons.1 hnodup
    obtain ⟨p, hp, hpw⟩ := hwilling target List.mem_cons_self
    have hsend := p.sendFrame_of_willing hpw kind payload
    have hafter (id : PeerId) : (s.sendFrame target kind payload).2.peer? id =
        if target = id then (s.peer? id).map (·.push (FrameHeader.frame kind payload))
        else s.peer? id := by
      rw [peer?_sendFrame]
      by_cases htarget : target = id
      · rw [if_pos htarget, if_pos htarget, ← htarget, hp, Option.map_some, Option.map_some, hsend]
      · rw [if_neg htarget, if_neg htarget]
    have hrest : (s.sendFrame target kind payload).2.WillingAt rest := by
      intro id hid
      have hne : target ≠ id := fun htarget => hnew (htarget ▸ hid)
      rw [hafter, if_neg hne]
      exact hwilling id (List.mem_cons_of_mem _ hid)
    obtain ⟨hfailed, hpeers⟩ := ih hnodup hrest
    refine ⟨?_, fun id => ?_⟩
    · rw [failed_sendEach_cons, sendFrame_fst hp, hsend, hfailed]
      rfl
    · rw [sendEach_cons_snd, hpeers, hafter]
      by_cases htarget : target = id
      · rw [← htarget, if_neg hnew, if_pos rfl, if_pos List.mem_cons_self]
      · rw [if_neg htarget]
        simp only [List.mem_cons, Ne.symm htarget, false_or]

theorem failed_broadcast_of_willing (hnodup : s.members.Nodup) (hwilling : s.WillingAt s.members)
    (m : Message) (skip : Option PeerId) : (s.broadcast m skip).1.failed = [] := by
  cases he : m.encode with
  | error e => rw [broadcast_of_encode_error he]
  | ok payload =>
    simp only [broadcast, he]
    exact (sendEach_of_willing m.type payload (hnodup.filter _)
      fun id hid => hwilling id (List.mem_of_mem_filter hid)).1

/-- Nobody leaves. -/
theorem members_broadcast_of_willing (hnodup : s.members.Nodup)
    (hwilling : s.WillingAt s.members) (m : Message) (skip : Option PeerId) :
    (s.broadcast m skip).2.members = s.members := by
  rw [members_broadcast, failed_broadcast_of_willing hnodup hwilling]
  exact List.filter_eq_self.2 fun _ _ => rfl

/-- Every member but the one that is left out gets the frame of the message. -/
theorem peer?_broadcast_of_willing (hnodup : s.members.Nodup) (hwilling : s.WillingAt s.members)
    {payload : Bytes} (he : m.encode = .ok payload) (skip : Option PeerId) (id : PeerId) :
    (s.broadcast m skip).2.peer? id =
      if id ∈ s.members ∧ some id ≠ skip then (s.peer? id).map (·.push m.frame)
      else s.peer? id := by
  have hfailed := failed_broadcast_of_willing hnodup hwilling m skip
  obtain ⟨-, hpeers⟩ := sendEach_of_willing m.type payload
    (hnodup.filter fun id => some id != skip) fun id hid => hwilling id (List.mem_of_mem_filter hid)
  simp only [broadcast, he] at hfailed ⊢
  rw [hfailed, peer?_dropAll, if_neg List.not_mem_nil, hpeers, Message.frame_of_encode he]
  simp only [List.mem_filter, bne_iff_ne]

theorem willingAt_broadcast (hnodup : s.members.Nodup) (hwilling : s.WillingAt s.members)
    {payload : Bytes} (he : m.encode = .ok payload) (skip : Option PeerId) :
    (s.broadcast m skip).2.WillingAt s.members := by
  intro id hid
  obtain ⟨p, hp, hpw⟩ := hwilling id hid
  rw [peer?_broadcast_of_willing hnodup hwilling he, hp]
  split
  · exact ⟨p.push m.frame, rfl, hpw.append m.frame⟩
  · exact ⟨p, rfl, hpw⟩

end PeerSet

end FileMesh
