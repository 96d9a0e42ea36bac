import FileMesh.Proofs.Malformed
import FileMesh.Proofs.Peer.Sending

/-!
# Whom broadcasts reach

A member is reached by a broadcast, gets the whole frame and stays, or is not reached, gets a
beginning of it at most, leaves and is closed. What happens to one member does not depend on the
others. So after several broadcasts, whoever is still a member got all of the messages, in order,
and nothing else; and whoever always takes what is written to it is still a member.
-/

namespace FileMesh

/-! ## One connection -/

/-- Whatever comes of writing a frame, a beginning of it was written. -/
theorem Sink.exists_taken_writeFrame (s : Sink) (kind : MessageType) (payload : Bytes) :
    ∃ part, part <+: FrameHeader.frame kind payload ∧
      (s.writeFrame kind payload).2.taken = s.taken ++ part := by
  rw [writeFrame, FrameHeader.frame]
  obtain ⟨n, hheader⟩ :=
    s.taken_writeAll (FrameHeader.new kind (UInt64.ofNat payload.length)).encode
  split
  · rename_i heq
    rw [heq] at hheader
    exact ⟨_, (List.take_prefix _ _).trans (List.prefix_append _ _), hheader⟩
  · rename_i t heq
    obtain ⟨k, hpayload⟩ := t.taken_writeAll payload
    refine ⟨_, (List.prefix_append_right_inj _).2 (List.take_prefix k payload), ?_⟩
    rw [← List.append_assoc, ← taken_push, ← eq_push_of_writeAll heq, ← hpayload]
    split <;> rename_i hwrite <;> rw [hwrite]

theorem Peer.exists_taken_sendFrame (p : Peer) (kind : MessageType) (payload : Bytes) :
    ∃ part, part <+: FrameHeader.frame kind payload ∧
      (p.sendFrame kind payload).2.sink.taken = p.sink.taken ++ part :=
  p.sink.exists_taken_writeFrame kind payload

@[simp] theorem Peer.taken_close (p : Peer) : p.close.sink.taken = p.sink.taken := by
  rw [close]
  split <;> rfl

theorem Peer.push_push (p : Peer) (b c : Bytes) : (p.push b).push c = p.push (b ++ c) := by
  rw [push, push, push, Sink.push_push]

namespace PeerSet

variable {s t u : PeerSet} {id : PeerId} {ids : List PeerId} {p : Peer} {m : Message}
  {messages messages' : List Message}

/-- What a frame that goes to several connections does to one of them. -/
theorem sendEach_of_mem (kind : MessageType) (payload : Bytes) (hnodup : ids.Nodup) (hid : id ∈ ids)
    (hp : s.peer? id = some p) :
    (sendEach kind payload ids s).2.peer? id = some (p.sendFrame kind payload).2 ∧
      (id ∈ (sendEach kind payload ids s).1.failed ↔
        (p.sendFrame kind payload).1.isOk = false) := by
  induction ids generalizing s with
  | nil => cases hid
  | cons target rest ih =>
    obtain ⟨hnew, hnodup⟩ := List.nodup_cons.1 hnodup
    rw [sendEach_cons_snd, failed_sendEach_cons, List.mem_append]
    by_cases htarget : target = id
    · obtain rfl := htarget
      rw [peer?_sendEach_of_not_mem kind payload hnew, peer?_sendFrame, if_pos rfl, hp,
        sendFrame_fst hp]
      refine ⟨rfl, ?_⟩
      rw [or_iff_left (not_mem_failed_sendEach kind payload hnew)]
      cases (p.sendFrame kind payload).1.isOk <;> simp
    · have hrest : id ∈ rest := (List.mem_cons.1 hid).resolve_left (Ne.symm htarget)
      obtain ⟨hpeer, hfailed⟩ := ih (s := (s.sendFrame target kind payload).2) hnodup hrest
        (by rw [peer?_sendFrame, if_neg htarget, hp])
      refine ⟨hpeer, ?_⟩
      rw [hfailed, or_iff_right]
      split <;> simp [Ne.symm htarget]

/-! ## Broadcasts -/

/-- From `s` to `t` these messages were broadcast to all members. -/
structure Reached (s t : PeerSet) (messages : List Message) : Prop where
  members : t.members.Sublist s.members
  of_not_mem : ∀ id, id ∉ s.members → t.peer? id = s.peer? id
  stays : ∀ id p, id ∈ t.members → s.peer? id = some p →
    t.peer? id = some (p.push (messages.flatMap Message.frame))
  leaves : ∀ id p, id ∈ s.members → id ∉ t.members → s.peer? id = some p →
    ∃ q part, t.peer? id = some q ∧ q.isClosed = true ∧
      part <+: messages.flatMap Message.frame ∧ q.sink.taken = p.sink.taken ++ part
  willing : ∀ id p, id ∈ s.members → s.peer? id = some p → p.sink.Willing → id ∈ t.members

namespace Reached

theorem refl (s : PeerSet) : s.Reached s [] where
  members := .refl _
  of_not_mem _ _ := rfl
  stays id p _ hp := by rw [hp, List.flatMap_nil, Peer.push, Sink.push_nil]
  leaves _ _ hid hnot _ := absurd hid hnot
  willing _ _ hid _ _ := hid

theorem trans (h : s.Reached t messages) (h' : t.Reached u messages') :
    s.Reached u (messages ++ messages') where
  members := h'.members.trans h.members
  of_not_mem id hid :=
    (h'.of_not_mem id fun ht => hid (h.members.subset ht)).trans (h.of_not_mem id hid)
  stays id p hid hp := by
    rw [h'.stays id _ hid (h.stays id p (h'.members.subset hid) hp), Peer.push_push,
      List.flatMap_append]
  leaves id p hid hnot hp := by
    rw [List.flatMap_append]
    by_cases ht : id ∈ t.members
    · obtain ⟨q, part, hq, hclosed, hpart, htaken⟩ :=
        h'.leaves id _ ht hnot (h.stays id p ht hp)
      refine ⟨q, _, hq, hclosed, (List.prefix_append_right_inj _).2 hpart, ?_⟩
      rw [htaken, Peer.push, Sink.taken_push, List.append_assoc]
    · obtain ⟨q, part, hq, hclosed, hpart, htaken⟩ := h.leaves id p hid ht hp
      exact ⟨q, part, (h'.of_not_mem id ht).trans hq, hclosed,
        hpart.trans (List.prefix_append _ _), htaken⟩
  willing id p hid hp hw := by
    have ht := h.willing id p hid hp hw
    exact h'.willing id _ ht (h.stays id p ht hp) (hw.append _)

end Reached

theorem mem_members_broadcast (s : PeerSet) (m : Message) (skip : Option PeerId) (id : PeerId) :
    id ∈ (s.broadcast m skip).2.members ↔
      id ∈ s.members ∧ id ∉ (s.broadcast m skip).1.failed := by
  rw [members_broadcast, List.mem_filter]
  simp

/-- A message that can be encoded reaches each member or it does not. -/
theorem reached_broadcast (hnodup : s.members.Nodup) {payload : Bytes}
    (he : m.encode = .ok payload) : s.Reached (s.broadcast m none).2 [m] := by
  have hframe : [m].flatMap Message.frame = FrameHeader.frame m.type payload := by
    rw [List.flatMap_singleton, Message.frame_of_encode he]
  have htargets : (s.members.filter fun id => some id != none) = s.members :=
    List.filter_eq_self.2 fun _ _ => rfl
  -- Each connection, and whether it is among those that were not reached.
  have hmem (id : PeerId) (p : Peer) (hid : id ∈ s.members) (hp : s.peer? id = some p) :
      (s.broadcast m none).2.peer? id = (if (p.sendFrame m.type payload).1.isOk
        then some (p.sendFrame m.type payload).2 else some (p.sendFrame m.type payload).2.close) ∧
      (id ∈ (s.broadcast m none).2.members ↔ (p.sendFrame m.type payload).1.isOk = true) := by
    obtain ⟨hpeer, hfailed⟩ := sendEach_of_mem m.type payload hnodup hid hp
    rw [mem_members_broadcast]
    simp only [broadcast, he, htargets, peer?_dropAll, hpeer, hfailed]
    cases (p.sendFrame m.type payload).1.isOk <;> simp [hid]
  exact {
    members := by
      rw [members_broadcast]
      exact List.filter_sublist
    of_not_mem := by
      intro id hid
      simp only [broadcast, he, htargets, peer?_dropAll,
        if_neg (not_mem_failed_sendEach m.type payload hid)]
      exact peer?_sendEach_of_not_mem m.type payload hid
    stays := by
      intro id p hid hp
      obtain ⟨hpeer, hstays⟩ := hmem id p ((mem_members_broadcast s m none id).1 hid).1 hp
      have hok := hstays.1 hid
      rw [hpeer, if_pos hok, hframe]
      cases hsend : p.sendFrame m.type payload with
      | mk result q =>
        rw [hsend] at hok
        cases result with
        | error cause => cases hok
        | ok _ => rw [Peer.eq_push_of_sendFrame hsend]
    leaves := by
      intro id p hid hnot hp
      obtain ⟨hpeer, hstays⟩ := hmem id p hid hp
      obtain ⟨part, hpart, htaken⟩ := p.exists_taken_sendFrame m.type payload
      rw [if_neg fun hok => hnot (hstays.2 hok)] at hpeer
      exact ⟨_, part, hpeer, Peer.isClosed_close _, hframe ▸ hpart,
        (Peer.taken_close _).trans htaken⟩
    willing := by
      intro id p hid hp hw
      rw [(hmem id p hid hp).2, Peer.sendFrame_of_willing hw]
      rfl }

/-- Several broadcasts to all members, one after the other. -/
def broadcastAll (s : PeerSet) (messages : List Message) : PeerSet :=
  messages.foldl (fun s m => (s.broadcast m none).2) s

/-- Several messages reach each member, in order, up to the first that does not. -/
theorem reached_broadcastAll (hnodup : s.members.Nodup)
    (he : ∀ m ∈ messages, ∃ payload, m.encode = .ok payload) :
    s.Reached (s.broadcastAll messages) messages := by
  induction messages generalizing s with
  | nil => exact .refl s
  | cons m messages ih =>
    obtain ⟨payload, hpayload⟩ := he m List.mem_cons_self
    have hfirst := reached_broadcast hnodup hpayload
    exact hfirst.trans (ih (hnodup.sublist hfirst.members) fun m' hm' =>
      he m' (List.mem_cons_of_mem _ hm'))

end PeerSet

end FileMesh
