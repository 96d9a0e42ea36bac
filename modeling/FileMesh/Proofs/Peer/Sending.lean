import FileMesh.Proofs.Peer.Broadcast

/-!
# Sends that succeed

A send that succeeds appends one whole frame to one connection, whatever the sink is like. It adds
no connection and takes none away.
-/

namespace FileMesh

theorem Sink.eq_push_of_writeAll {s t : Sink} {data : Bytes} (h : s.writeAll data = (.ok (), t)) :
    t = s.push data := by
  rw [Sink.writeAll] at h
  split at h
  · rename_i hnil
    cases h
    rw [hnil, push_nil]
  · split at h
    · cases h
    · dsimp only at h
      split at h
      · rename_i hall
        cases h
        rw [hall, List.take_length]
        rfl
      · cases h

/-- A frame that was written without a failure was written whole. -/
theorem Sink.eq_push_of_writeFrame {s t : Sink} {kind : MessageType} {payload : Bytes}
    (h : s.writeFrame kind payload = (.ok (), t)) :
    t = s.push (FrameHeader.frame kind payload) := by
  rw [writeFrame] at h
  split at h
  · cases h
  · rename_i u hu
    split at h
    · cases h
    · rename_i v hv
      cases congrArg Prod.snd h
      rw [eq_push_of_writeAll hv, eq_push_of_writeAll hu, push_push]
      rfl

theorem Peer.eq_push_of_sendFrame {p p' : Peer} {kind : MessageType} {payload : Bytes}
    (h : p.sendFrame kind payload = (.ok (), p')) :
    p' = p.push (FrameHeader.frame kind payload) := by
  rw [sendFrame] at h
  cases hwrite : p.sink.writeFrame kind payload with
  | mk result sink =>
    rw [hwrite] at h
    cases h
    rw [Sink.eq_push_of_writeFrame hwrite]
    rfl

/-- A peer that takes what is written to it takes a message that can be encoded. -/
theorem Peer.send_of_willing {p : Peer} (h : p.sink.Willing) {m : Message} {payload : Bytes}
    (he : m.encode = .ok payload) : p.send m = (.ok (), p.push m.frame) := by
  rw [send_of_encode he, sendFrame_of_willing h, Message.frame_of_encode he]
  rfl

namespace PeerSet

variable {s t : PeerSet} {id : PeerId} {kind : MessageType} {payload : Bytes} {m : Message}

theorem peer?_of_sendFrame (h : s.sendFrame id kind payload = (.ok (), t)) :
    ∃ p, s.peer? id = some p ∧ t.peer? id = some (p.push (FrameHeader.frame kind payload)) := by
  rw [sendFrame] at h
  cases hp : s.peer? id with
  | none =>
    rw [hp] at h
    cases h
  | some p =>
    cases hsend : p.sendFrame kind payload with
    | mk result p' =>
      simp only [hp, hsend] at h
      cases h
      rw [peer?_modify, if_pos rfl, hp, Peer.eq_push_of_sendFrame hsend]
      exact ⟨p, rfl, rfl⟩

/-- A message that can be encoded is sent by sending its frame. -/
theorem send_of_encode {p : Peer} (hp : s.peer? id = some p) (he : m.encode = .ok payload) :
    s.send id m = ((s.sendFrame id m.type payload).1.mapError .transport,
      (s.sendFrame id m.type payload).2) := by
  rw [send_of_peer? hp, Peer.send_of_encode he, sendFrame, hp]

theorem peer?_of_send (he : m.encode = .ok payload) (h : s.send id m = (.ok (), t)) :
    ∃ p, s.peer? id = some p ∧ t.peer? id = some (p.push m.frame) := by
  cases hp : s.peer? id with
  | none =>
    rw [send, hp] at h
    cases h
  | some p =>
    rw [send_of_encode hp he] at h
    rw [← hp, Message.frame_of_encode he]
    apply peer?_of_sendFrame
    cases hsend : s.sendFrame id m.type payload with
    | mk result peers =>
      rw [hsend] at h
      cases result <;> cases h
      rfl

theorem send_ne_protocol {e : WireError} (he : m.encode = .ok payload) :
    (s.send id m).1 ≠ .error (.protocol e) := by
  cases hp : s.peer? id with
  | none =>
    simp [send, hp]
  | some p =>
    rw [send_of_encode hp he]
    cases (s.sendFrame id m.type payload).1 <;> simp [Except.mapError]

theorem length_sendFrame (s : PeerSet) (id : PeerId) (kind : MessageType) (payload : Bytes) :
    (s.sendFrame id kind payload).2.connections.length = s.connections.length := by
  rw [sendFrame]
  split
  · rfl
  · exact List.length_modify _ _ _

theorem length_dropAll (s : PeerSet) (ids : List PeerId) :
    (s.dropAll ids).connections.length = s.connections.length := by
  have hfold (ids : List PeerId) (s : PeerSet) :
      (ids.foldl close s).connections.length = s.connections.length := by
    induction ids generalizing s with
    | nil => rfl
    | cons id ids ih => exact (ih (s.close id)).trans (List.length_modify _ _ _)
  exact hfold ids _

theorem peer?_eq_none_of_length (h : s.connections.length = id) : s.peer? id = none :=
  List.getElem?_eq_none (Nat.le_of_eq h)

end PeerSet

end FileMesh
