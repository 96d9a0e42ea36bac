import FileMesh.Peer
import FileMesh.Proofs.Frame.Reading
import FileMesh.Proofs.Frame.Steady

/-!
# What a connection carries

Messages reach a connection one by one and in broadcasts, and it may be closed at any time. Whatever
is done, its bytes are the frames of the messages that were reported as sent, in order, and then
possibly the beginning of one more. That beginning is there only if its write failed, and after a
failed write or a close nothing is sent any more. So the other end reads exactly what was sent and
then a fatal error.
-/

namespace FileMesh

/-! ## One connection -/

namespace Peer

variable {p p' p'' : Peer} {messages sent sent' : List Message} {part part' part'' : Bytes}
variable {m : Message} {payload : Bytes} {failed failed' : Prop} {m? : Option Message}

/-- The connection carried the frames of these messages and then `part`. -/
structure Carries (p : Peer) (messages : List Message) (part : Bytes) : Prop where
  steady : p.sink.Steady
  flushes : p.sink.Flushes
  taken : p.sink.taken = messages.flatMap Message.frame ++ part
  dead_of_part : part ≠ [] → p.sink.Dead
  dead_of_closed : p.sink.refusesShut = true → p.isClosed = true → p.sink.Dead

/-- From `p` to `p'` the messages `sent` went out and `part` became `part'`. Whether a write
`failed` is known; if one did, it was one of the message `m?`. -/
structure Advance (p p' : Peer) (part part' : Bytes) (sent : List Message) (failed : Prop)
    (m? : Option Message) : Prop where
  refusesShut : p'.sink.refusesShut = p.sink.refusesShut
  carries : ∀ messages, p.Carries messages part → p'.Carries (messages ++ sent) part'
  dead : p.sink.Dead → p'.sink.Dead ∧ sent = [] ∧ part' = part
  dead_of_failed : failed → p'.sink.Dead
  cut : part' = part ∨ failed ∧ ∃ m ∈ m?, m.IsCut part'

namespace Advance

theorem refl (p : Peer) (part : Bytes) (m? : Option Message) :
    Advance p p part part [] False m? where
  refusesShut := rfl
  carries messages h := by rwa [List.append_nil]
  dead h := ⟨h, rfl, rfl⟩
  dead_of_failed := False.elim
  cut := .inl rfl

theorem trans (h : Advance p p' part part' sent failed m?)
    (h' : Advance p' p'' part' part'' sent' failed' m?) :
    Advance p p'' part part'' (sent ++ sent') (failed ∨ failed') m? where
  refusesShut := h'.refusesShut.trans h.refusesShut
  carries messages hp := by
    rw [← List.append_assoc]
    exact h'.carries _ (h.carries messages hp)
  dead hp := by
    obtain ⟨hp', hsent, hpart⟩ := h.dead hp
    obtain ⟨hp'', hsent', hpart'⟩ := h'.dead hp'
    exact ⟨hp'', by rw [hsent, hsent', List.append_nil], hpart'.trans hpart⟩
  dead_of_failed hf := by
    rcases hf with hf | hf
    · exact (h'.dead (h.dead_of_failed hf)).1
    · exact h'.dead_of_failed hf
  cut := by
    rcases h'.cut with hpart | ⟨hf, hcut⟩
    · rcases h.cut with hpart' | ⟨hf, hcut⟩
      · exact .inl (hpart.trans hpart')
      · exact .inr ⟨.inl hf, hpart ▸ hcut⟩
    · exact .inr ⟨.inr hf, hcut⟩

theorem of_iff (h : Advance p p' part part' sent failed m?) (hf : failed' ↔ failed) :
    Advance p p' part part' sent failed' m? := by
  rwa [propext hf]

end Advance

/-- A connection that is closed carries nothing more if its transport refuses what comes after a
shutdown. -/
theorem Carries.dead_close (h : p.Carries messages part) (hrefuses : p.sink.refusesShut = true) :
    p.close.sink.Dead := by
  rw [close]
  split
  · rename_i hclosed
    exact h.dead_of_closed hrefuses hclosed
  · exact Sink.dead_shutdown hrefuses

theorem dead_close_of_dead (h : p.sink.Dead) : p.close.sink.Dead := by
  rw [close]
  split
  · exact h
  · exact h.shutdown

theorem refusesShut_close (p : Peer) : p.close.sink.refusesShut = p.sink.refusesShut := by
  rw [close]
  split <;> rfl

theorem Advance.close (p : Peer) (part : Bytes) (m? : Option Message) :
    Advance p p.close part part [] False m? where
  refusesShut := p.refusesShut_close
  carries messages hp := by
    rw [List.append_nil]
    refine ⟨?_, ?_, ?_, fun hpart => dead_close_of_dead (hp.dead_of_part hpart), fun hrefuses _ =>
      hp.dead_close (p.refusesShut_close ▸ hrefuses)⟩ <;> rw [Peer.close] <;> split
    · exact hp.steady
    · exact hp.steady.shutdown
    · exact hp.flushes
    · exact hp.flushes.shutdown
    · exact hp.taken
    · exact hp.taken
  dead h := ⟨dead_close_of_dead h, rfl, rfl⟩
  dead_of_failed := False.elim
  cut := .inl rfl

/-- A frame of a message goes out as a whole, or the write failed and the connection is dead. -/
theorem Carries.sendFrame (h : p.Carries messages part) (he : m.encode = .ok payload) :
    ∃ part', Advance p (p.sendFrame m.type payload).2 part part'
      (if (p.sendFrame m.type payload).1.isOk then [m] else [])
      (¬ (p.sendFrame m.type payload).1.isOk) (some m) := by
  by_cases hdead : p.sink.Dead
  · obtain ⟨e, hwrite⟩ := hdead.writeFrame m.type payload
    refine ⟨part, ?_⟩
    simp only [Peer.sendFrame, hwrite]
    exact ⟨rfl, fun messages hp => (List.append_nil messages).symm ▸ hp,
      fun _ => ⟨hdead, rfl, rfl⟩, fun _ => hdead, .inl rfl⟩
  · obtain rfl : part = [] := by
      by_contra hpart
      exact hdead (h.dead_of_part hpart)
    rcases h.steady.writeFrame h.flushes m.type payload with hok | ⟨e, part', herr, hdead', hcut⟩
    · refine ⟨[], ?_⟩
      simp only [Peer.sendFrame, hok]
      refine ⟨rfl, fun messages hp => ⟨hp.steady.push _, hp.flushes.push _, ?_, nofun,
          fun hrefuses hclosed => absurd (hp.dead_of_closed hrefuses hclosed) hdead⟩,
        fun hd => absurd hd hdead, fun hf => absurd rfl hf, .inl rfl⟩
      rw [Sink.taken_push, hp.taken, ← Message.frame_of_encode he]
      simp [Except.isOk, Except.toBool]
    · refine ⟨part', ?_⟩
      simp only [Peer.sendFrame, herr]
      rw [← Message.frame_of_encode he] at hcut
      refine ⟨rfl, fun messages hp => ⟨hp.steady.push _, hp.flushes.push _, ?_, fun _ => hdead',
          fun _ _ => hdead'⟩,
        fun hd => absurd hd hdead, fun _ => hdead', .inr ⟨nofun, m, rfl, hcut⟩⟩
      rw [Sink.taken_push, hp.taken]
      simp [Except.isOk, Except.toBool]

theorem send_of_encode (he : m.encode = .ok payload) (p : Peer) :
    p.send m = ((p.sendFrame m.type payload).1.mapError .transport,
      (p.sendFrame m.type payload).2) := by
  simp only [send, Sink.sendMessage, he, Peer.sendFrame]
  rcases p.sink.writeFrame m.type payload with ⟨e | _, s⟩ <;> rfl

theorem send_of_encode_error {e : WireError} (he : m.encode = .error e) (p : Peer) :
    p.send m = (.error (.protocol e), p) := by
  simp only [send, Sink.sendMessage, he]

end Peer

/-! ## Several connections -/

namespace PeerSet

variable {s : PeerSet} {id : PeerId} {p : Peer} {m : Message} {payload : Bytes}
variable {messages : List Message} {part : Bytes}

theorem peer?_modify (s : PeerSet) (target id : PeerId) (f : Peer → Peer) :
    (s.modify target f).peer? id = if target = id then (s.peer? id).map f else s.peer? id := by
  rw [peer?, modify, List.getElem?_modify]
  split <;> simp [peer?]

theorem modify_of_peer? (hp : s.peer? id = some p) : (s.modify id fun _ => p) = s := by
  obtain ⟨connections, members⟩ := s
  simp only [modify, mk.injEq, and_true]
  refine List.ext_getElem? fun i => ?_
  rw [List.getElem?_modify]
  split
  · rename_i hi
    rw [peer?] at hp
    rw [← hi, hp]
    rfl
  · exact Option.map_id'

theorem peer?_sendFrame (s : PeerSet) (target id : PeerId) (kind : MessageType) (payload : Bytes) :
    (s.sendFrame target kind payload).2.peer? id =
      if target = id then (s.peer? id).map fun p => (p.sendFrame kind payload).2
      else s.peer? id := by
  rw [sendFrame]
  split
  · rename_i hnone
    split
    · rename_i heq
      rw [← heq, hnone]
      rfl
    · rfl
  · rename_i p hp
    rw [peer?_modify]
    split
    · rename_i heq
      rw [← heq, hp]
      rfl
    · rfl

theorem sendFrame_fst (hp : s.peer? id = some p) (kind : MessageType) (payload : Bytes) :
    (s.sendFrame id kind payload).1 = (p.sendFrame kind payload).1 := by
  rw [sendFrame, hp]

theorem peer?_dropAll (s : PeerSet) (ids : List PeerId) (id : PeerId) :
    (s.dropAll ids).peer? id = if id ∈ ids then (s.peer? id).map Peer.close else s.peer? id := by
  have hfold (ids : List PeerId) (t : PeerSet) : (ids.foldl close t).peer? id =
      if id ∈ ids then (t.peer? id).map Peer.close else t.peer? id := by
    induction ids generalizing t with
    | nil => rfl
    | cons target rest ih =>
      rw [List.foldl_cons, ih, close, peer?_modify]
      by_cases htarget : target = id
      · rw [if_pos htarget, htarget, if_pos List.mem_cons_self, Option.map_map]
        split
        · congr 1
          exact funext Peer.close_close
        · rfl
      · rw [if_neg htarget]
        simp only [List.mem_cons, Ne.symm htarget, false_or]
  exact hfold ids _

theorem sendEach_cons_snd (kind : MessageType) (payload : Bytes) (target : PeerId)
    (rest : List PeerId) (s : PeerSet) : (sendEach kind payload (target :: rest) s).2 =
      (sendEach kind payload rest (s.sendFrame target kind payload).2).2 := by
  rw [sendEach]
  split <;> rename_i h <;> rw [h]

theorem failed_sendEach_cons (kind : MessageType) (payload : Bytes) (target : PeerId)
    (rest : List PeerId) (s : PeerSet) : (sendEach kind payload (target :: rest) s).1.failed =
      (if (s.sendFrame target kind payload).1.isOk then [] else [target]) ++
        (sendEach kind payload rest (s.sendFrame target kind payload).2).1.failed := by
  rw [sendEach]
  split <;> rename_i h <;> rw [h] <;> rfl

theorem count_failed_sendEach_le (kind : MessageType) (payload : Bytes) (ids : List PeerId)
    (s : PeerSet) (id : PeerId) :
    (sendEach kind payload ids s).1.failed.count id ≤ ids.count id := by
  induction ids generalizing s with
  | nil => exact Nat.le_refl _
  | cons target rest ih =>
    have hrest := ih (s.sendFrame target kind payload).2
    rw [failed_sendEach_cons, List.count_append, List.count_cons]
    split
    · rw [List.count_nil]
      omega
    · rw [List.count_singleton]
      omega

/-- A frame that goes to many connections advances each by as many frames as reached it. -/
theorem advance_sendEach (hp : s.peer? id = some p) (h : p.Carries messages part)
    (he : m.encode = .ok payload) (ids : List PeerId) :
    ∃ p' part', (sendEach m.type payload ids s).2.peer? id = some p' ∧
      p.Advance p' part part' (List.replicate
        (ids.count id - (sendEach m.type payload ids s).1.failed.count id) m)
        (id ∈ (sendEach m.type payload ids s).1.failed) (some m) := by
  induction ids generalizing s p messages part with
  | nil => exact ⟨p, part, hp, (Peer.Advance.refl p part _).of_iff (by simp [sendEach])⟩
  | cons target rest ih =>
    have hle := count_failed_sendEach_le m.type payload rest
      (s.sendFrame target m.type payload).2 id
    have hnext := s.peer?_sendFrame target id m.type payload
    rw [sendEach_cons_snd, failed_sendEach_cons]
    by_cases htarget : target = id
    · obtain rfl := htarget
      obtain ⟨part₁, hfirst⟩ := h.sendFrame he
      rw [if_pos rfl, hp, Option.map_some] at hnext
      obtain ⟨p', part', hp', hrest⟩ := ih hnext (hfirst.carries _ h)
      refine ⟨p', part', hp', ?_⟩
      have hall := hfirst.trans hrest
      rw [sendFrame_fst hp, List.count_append, List.count_cons_self]
      cases hok : (p.sendFrame m.type payload).1.isOk with
      | true =>
        rw [hok] at hall
        rw [if_pos rfl, List.count_nil, Nat.zero_add, Nat.sub_add_comm hle, List.replicate_succ]
        exact hall.of_iff (by simp)
      | false =>
        rw [hok] at hall
        rw [if_neg Bool.false_ne_true, List.count_singleton_self, Nat.add_comm 1,
          Nat.add_sub_add_right]
        exact hall.of_iff (by simp)
    · rw [if_neg htarget] at hnext
      obtain ⟨p', part', hp', hrest⟩ := ih (hnext.trans hp) h
      refine ⟨p', part', hp', ?_⟩
      have hfailed : (if (s.sendFrame target m.type payload).1.isOk then [] else [target]).count id
          = 0 := by
        split
        · rfl
        · exact List.count_eq_zero.2 (by simpa using Ne.symm htarget)
      rw [List.count_append, hfailed, Nat.zero_add, List.count_cons_of_ne htarget]
      refine hrest.of_iff ?_
      rw [List.mem_append]
      exact or_iff_right (List.count_eq_zero.1 hfailed)

/-! ## Operations -/

/-- What is done with the connections of a node: a message goes to one connection or to every member
but one, a connection is closed or becomes a member, or a member leaves and is closed. -/
inductive Op where
  | send (target : PeerId) (message : Message)
  | broadcast (message : Message) (skip : Option PeerId)
  | close (target : PeerId)
  | add (target : PeerId)
  | remove (target : PeerId)
deriving DecidableEq, Repr

/-- The message that an operation sends. -/
def Op.message? : Op → Option Message
  | send _ m => some m
  | broadcast m _ => some m
  | _ => none

/-- The connections after an operation. -/
def apply (s : PeerSet) : Op → PeerSet
  | .send target m => (s.send target m).2
  | .broadcast m skip => (s.broadcast m skip).2
  | .close target => s.close target
  | .add target => s.add target
  | .remove target => (s.remove target).2

/-- The connections after one operation after the other. -/
def run (s : PeerSet) (ops : List Op) : PeerSet := ops.foldl apply s

/-- The messages that an operation reports as sent on a connection. A broadcast reaches a member
unless it lists it as failed, once for every time it is a member. -/
def delivered (s : PeerSet) (id : PeerId) : Op → List Message
  | .send target m => if target = id ∧ (s.send target m).1.isOk then [m] else []
  | .broadcast m skip =>
    match m.encode with
    | .ok _ => List.replicate ((s.members.filter fun id => some id != skip).count id -
        (s.broadcast m skip).1.failed.count id) m
    | .error _ => []
  | _ => []

/-- The messages that were reported as sent on a connection, in order. -/
def sent (id : PeerId) : PeerSet → List Op → List Message
  | _, [] => []
  | s, op :: ops => s.delivered id op ++ sent id (s.apply op) ops

/-- The operation reports that a write to the connection failed. -/
def Fails (s : PeerSet) (id : PeerId) : Op → Prop
  | .send target m => target = id ∧ ∃ cause, (s.send target m).1 = .error (.transport cause)
  | .broadcast m skip => id ∈ (s.broadcast m skip).1.failed
  | _ => False

/-- The operation closes the connection. -/
def Shuts (s : PeerSet) (id : PeerId) : Op → Prop
  | .close target => target = id
  | .remove target => target = id ∧ s.contains target
  | _ => False

/-! ## One operation -/

theorem send_of_peer? (hp : s.peer? id = some p) (m : Message) :
    s.send id m = ((p.send m).1, s.modify id fun _ => (p.send m).2) := by
  simp only [send, hp]

theorem send_of_encode_error {e : WireError} (hp : s.peer? id = some p) (he : m.encode = .error e) :
    s.send id m = (.error (.protocol e), s) := by
  rw [send_of_peer? hp, Peer.send_of_encode_error he, modify_of_peer? hp]

theorem peer?_send_of_ne {target : PeerId} (h : target ≠ id) (s : PeerSet) (m : Message) :
    (s.send target m).2.peer? id = s.peer? id := by
  rw [send]
  split
  · rfl
  · exact (s.peer?_modify target id _).trans (if_neg h)

theorem broadcast_of_encode_error {e : WireError} (he : m.encode = .error e) (s : PeerSet)
    (skip : Option PeerId) : s.broadcast m skip = (⟨0, []⟩, s) := by
  simp only [broadcast, he]

theorem advance_send (hp : s.peer? id = some p) (h : p.Carries messages part) (target : PeerId)
    (m : Message) : ∃ p' part', (s.send target m).2.peer? id = some p' ∧
      p.Advance p' part part' (s.delivered id (.send target m)) (s.Fails id (.send target m))
        (some m) := by
  by_cases htarget : target = id
  · obtain rfl := htarget
    simp only [delivered, Fails, true_and]
    cases he : m.encode with
    | error e =>
      rw [send_of_encode_error hp he]
      exact ⟨p, part, hp, (Peer.Advance.refl p part _).of_iff (by simp)⟩
    | ok payload =>
      obtain ⟨part', hadvance⟩ := h.sendFrame he
      rw [send_of_peer? hp, Peer.send_of_encode he, peer?_modify, if_pos rfl, hp]
      refine ⟨_, part', rfl, ?_⟩
      rcases hframe : p.sendFrame m.type payload with ⟨cause | _, p'⟩ <;> rw [hframe] at hadvance
      · exact hadvance.of_iff ⟨nofun, fun _ => ⟨cause, rfl⟩⟩
      · exact hadvance.of_iff ⟨nofun, fun hf => absurd rfl hf⟩
  · simp only [delivered, Fails, htarget, false_and, if_false]
    exact ⟨p, part, (peer?_send_of_ne htarget s m).trans hp, Peer.Advance.refl p part _⟩

theorem advance_broadcast (hp : s.peer? id = some p) (h : p.Carries messages part) (m : Message)
    (skip : Option PeerId) : ∃ p' part', (s.broadcast m skip).2.peer? id = some p' ∧
      p.Advance p' part part' (s.delivered id (.broadcast m skip))
        (s.Fails id (.broadcast m skip)) (some m) := by
  cases he : m.encode with
  | error e =>
    simp only [delivered, Fails, he, broadcast_of_encode_error he]
    exact ⟨p, part, hp, (Peer.Advance.refl p part _).of_iff (by simp)⟩
  | ok payload =>
    obtain ⟨p', part', hp', hadvance⟩ :=
      advance_sendEach hp h he (s.members.filter fun id => some id != skip)
    simp only [delivered, Fails, broadcast, he, peer?_dropAll, hp', Option.map_some]
    split
    · have hall := hadvance.trans (.close p' part' (some m))
      rw [List.append_nil] at hall
      exact ⟨_, part', rfl, hall.of_iff (or_false _).symm.to_iff⟩
    · exact ⟨p', part', rfl, hadvance⟩

theorem advance_close (hp : s.peer? id = some p) (h : p.Carries messages part) (target : PeerId)
    (m? : Option Message) : ∃ p', (s.close target).peer? id = some p' ∧
      p.Advance p' part part [] False m? ∧
      (p.sink.refusesShut = true → target = id → p'.sink.Dead) := by
  rw [close, peer?_modify, hp]
  split
  · exact ⟨p.close, rfl, .close p part m?, fun hrefuses _ => h.dead_close hrefuses⟩
  · rename_i htarget
    exact ⟨p, rfl, Peer.Advance.refl p part m?, fun _ heq => absurd heq htarget⟩

/-- An operation advances a connection by what it reports as sent there. -/
theorem advance_apply (hp : s.peer? id = some p) (h : p.Carries messages part) (op : Op) :
    ∃ p' part', (s.apply op).peer? id = some p' ∧
      p.Advance p' part part' (s.delivered id op) (s.Fails id op) op.message? ∧
      (p.sink.refusesShut = true → s.Shuts id op → p'.sink.Dead) := by
  cases op with
  | send target m =>
    obtain ⟨p', part', hp', hadvance⟩ := advance_send hp h target m
    exact ⟨p', part', hp', hadvance, fun _ => False.elim⟩
  | broadcast m skip =>
    obtain ⟨p', part', hp', hadvance⟩ := advance_broadcast hp h m skip
    exact ⟨p', part', hp', hadvance, fun _ => False.elim⟩
  | close target =>
    obtain ⟨p', hp', hadvance, hdead⟩ := advance_close hp h target none
    exact ⟨p', part, hp', hadvance, hdead⟩
  | add target => exact ⟨p, part, hp, Peer.Advance.refl p part none, fun _ => False.elim⟩
  | remove target =>
    rw [apply, remove]
    split
    · rename_i hidx
      refine ⟨p, part, hp, Peer.Advance.refl p part none, fun _ hcloses => ?_⟩
      have hmem : target ∈ s.members := by simpa [contains] using hcloses.2
      exact absurd hmem (List.idxOf?_eq_none_iff.1 hidx)
    · obtain ⟨p', hp', hadvance, hdead⟩ :=
        advance_close (s := { s with members := _ }) hp h target none
      exact ⟨p', part, hp', hadvance, fun hrefuses hcloses => hdead hrefuses hcloses.1⟩

/-! ## Any number of operations -/

theorem sent_of_dead (hp : s.peer? id = some p) (h : p.Carries messages part)
    (hdead : p.sink.Dead) (ops : List Op) : s.sent id ops = [] := by
  induction ops generalizing s p messages part with
  | nil => rfl
  | cons op ops ih =>
    obtain ⟨p', part', hp', hadvance, -⟩ := advance_apply hp h op
    obtain ⟨hdead', hnone, -⟩ := hadvance.dead hdead
    rw [sent, hnone, ih hp' (hadvance.carries _ h) hdead']
    rfl

/-- The invariant of a connection holds after any operations, for the messages that were reported as
sent. What follows their frames is the beginning of a frame whose write failed. -/
theorem carries_of_run (hp : s.peer? id = some p) (h : p.Carries messages part) (ops : List Op) :
    ∃ q part', (s.run ops).peer? id = some q ∧ q.Carries (messages ++ s.sent id ops) part' ∧
      q.sink.refusesShut = p.sink.refusesShut ∧
      (part' = part ∨ ∃ before op after, ops = before ++ op :: after ∧
        (s.run before).Fails id op ∧ ∃ m ∈ op.message?, m.IsCut part') := by
  induction ops generalizing s p messages part with
  | nil => exact ⟨p, part, hp, by rwa [sent, List.append_nil], rfl, .inl rfl⟩
  | cons op ops ih =>
    obtain ⟨p', part₁, hp', hadvance, -⟩ := advance_apply hp h op
    obtain ⟨q, part', hq, hcarries, hrefuses, hpart⟩ := ih hp' (hadvance.carries _ h)
    rw [List.append_assoc] at hcarries
    refine ⟨q, part', hq, hcarries, hrefuses.trans hadvance.refusesShut, ?_⟩
    rcases hpart with rfl | ⟨before, op', after, rfl, hfails, hcut⟩
    · rcases hadvance.cut with hpart | ⟨hfails, hcut⟩
      · exact .inl hpart
      · exact .inr ⟨[], op, ops, rfl, hfails, hcut⟩
    · exact .inr ⟨op :: before, op', after, rfl, hfails, hcut⟩

theorem encode_of_mem_delivered {op : Op} (hm : m ∈ s.delivered id op)
    (hp : s.peer? id = some p) : op.message? = some m ∧ ∃ payload, m.encode = .ok payload := by
  cases op with
  | send target m' =>
    rw [delivered] at hm
    split at hm
    · rename_i hok
      obtain rfl := List.mem_singleton.1 hm
      obtain ⟨rfl, hok⟩ := hok
      refine ⟨rfl, ?_⟩
      cases he : m.encode with
      | ok payload => exact ⟨payload, rfl⟩
      | error e =>
        rw [send_of_encode_error hp he] at hok
        cases hok
    · cases hm
  | broadcast m' skip =>
    rw [delivered] at hm
    split at hm
    · rename_i payload he
      obtain rfl := List.eq_of_mem_replicate hm
      exact ⟨rfl, payload, he⟩
    · cases hm
  | close _ => cases hm
  | add _ => cases hm
  | remove _ => cases hm

theorem encode_of_mem_sent (hp : s.peer? id = some p) (h : p.Carries messages part)
    (ops : List Op) (hm : m ∈ s.sent id ops) : ∃ payload, m.encode = .ok payload := by
  induction ops generalizing s p messages part with
  | nil => cases hm
  | cons op ops ih =>
    rw [sent, List.mem_append] at hm
    rcases hm with hm | hm
    · exact (encode_of_mem_delivered hm hp).2
    · obtain ⟨p', part', hp', hadvance, -⟩ := advance_apply hp h op
      exact ih hp' (hadvance.carries _ h) hm

/-- A new connection carries the frames of exactly the messages that were reported as sent on it,
whatever is done, if its transport fails for ever once a write has failed and no flush of it fails.
Behind the frames is at most the beginning of one more, whose write failed. A message that cannot be
encoded changes nothing, and after a failed write nothing is sent; nor after a close, if the
transport refuses what is written after a shutdown. The other end, however it gets these bytes,
reads exactly these messages and then fails for good. -/
theorem carries_run {address : SocketAddress} {sink : Sink}
    (hp : s.peer? id = some (.connected address sink)) (htaken : sink.taken = [])
    (hsteady : sink.Steady) (hflush : sink.Flushes) (ops : List Op) :
    ∃ q part, (s.run ops).peer? id = some q ∧
      q.sink.taken = (s.sent id ops).flatMap Message.frame ++ part ∧
      (part = [] ∨ ∃ before op after, ops = before ++ op :: after ∧
        (s.run before).Fails id op ∧ ∃ m ∈ op.message?, m.IsCut part) ∧
      (∀ m e, m.encode = .error e →
        (s.run ops).send id m = (.error (.protocol e), s.run ops) ∧
        ∀ skip, (s.run ops).broadcast m skip = (⟨0, []⟩, s.run ops)) ∧
      (∀ op, (s.run ops).Fails id op ∨ sink.refusesShut = true ∧ (s.run ops).Shuts id op →
        ∀ after, ((s.run ops).apply op).sent id after = []) ∧
      ∀ (limit : UInt64) (source : Source), source.unread = q.sink.taken →
        (∀ op ∈ ops, ∀ m ∈ op.message?, m.Fits (2 ^ 64 - 1)) →
        (∀ m ∈ s.sent id ops, m.Fits limit.toNat) →
        ∃ e : FrameError, e.isFatal = true ∧
          (FrameReader.ofSource source).nexts limit.toNat ((s.sent id ops).length + 1) =
            (s.sent id ops).map Message.readBack ++ [.error e] ∧
          ((∀ m ∈ s.sent id ops, m.readBack = .ok m) →
            (FrameReader.ofSource source).readAll limit.toNat = (s.sent id ops, e)) := by
  have hstart : (Peer.connected address sink).Carries [] [] :=
    ⟨hsteady, hflush, htaken, fun hne => absurd rfl hne, fun _ => nofun⟩
  obtain ⟨q, part, hq, hcarries, hsame, hpart⟩ := carries_of_run hp hstart ops
  refine ⟨q, part, hq, hcarries.taken, hpart, ?_, ?_, ?_⟩
  · intro m e he
    exact ⟨send_of_encode_error hq he, fun skip => broadcast_of_encode_error he _ skip⟩
  · intro op hends after
    obtain ⟨q', part', hq', hadvance, hclosed⟩ := advance_apply hq hcarries op
    have hdead : q'.sink.Dead := by
      rcases hends with hfails | ⟨hrefuses, hcloses⟩
      · exact hadvance.dead_of_failed hfails
      · exact hclosed (hsame.trans hrefuses) hcloses
    exact sent_of_dead hq' (hadvance.carries _ hcarries) hdead after
  · intro limit source hsource hsizes hlimit
    have hcut : part = [] ∨ ∃ m : Message, m.Fits (2 ^ 64 - 1) ∧ m.IsCut part := by
      rcases hpart with hnil | ⟨before, op, after, hops, -, m, hm, hcut⟩
      · exact .inl hnil
      · have hop : op ∈ ops := by
          rw [hops]
          exact List.mem_append_right _ List.mem_cons_self
        exact .inr ⟨m, hsizes op hop m hm, hcut⟩
    have henc (m : Message) (hm : m ∈ s.sent id ops) := encode_of_mem_sent hp hstart ops hm
    obtain ⟨e, hfatal, hnexts⟩ := FrameReader.nexts_of_frames henc hlimit hcut
      (r := .ofSource source) (hsource.trans hcarries.taken)
    exact ⟨e, hfatal, hnexts, fun hback => FrameReader.readAll_of_nexts hback hnexts⟩

/-- A transport that takes twelve bytes, at most five in one call: of two messages the first goes
out, and a third, which cannot be encoded, does not matter. -/
theorem carries_run_limited :
    let sink := Sink.limited (some 12) (some 5) false
    let s : PeerSet := ⟨[.connected default sink], [0]⟩
    let long : Descriptor :=
      ⟨"a name of more than thirty-two bytes", .zero, .replicate chunkCount .zero, 0⟩
    let ops : List Op := [.send 0 (.fileDef long), .send 0 .requestAddrSelf,
      .broadcast (.addrSelf default) none, .send 0 .requestAddrSelf]
    let taken : Bytes := [0x0D, 0, 0, 0, 0, 0, 0, 0, 0, 0x0C, 0, 0]
    s.peer? 0 = some (.connected default sink) ∧ sink.taken = [] ∧ sink.Steady ∧ sink.Flushes ∧
      s.sent 0 ops = [.requestAddrSelf] ∧
      ((s.run ops).peer? 0).map (·.sink.taken) = some taken ∧
      ∃ e : FrameError, e.isFatal = true ∧
        (FrameReader.ofSource ⟨[taken], .closed⟩).readAll 0 = ([.requestAddrSelf], e) := by
  intro sink s long ops taken
  have hsteady : sink.Steady := Sink.steady_limited _ _ _
  have hflush : sink.Flushes := Sink.flushes_limited _ _ _
  have hsent : s.sent 0 ops = [.requestAddrSelf] := by decide +kernel
  have htaken : ((s.run ops).peer? 0).map (·.sink.taken) = some taken := by decide +kernel
  refine ⟨rfl, rfl, hsteady, hflush, hsent, htaken, ?_⟩
  obtain ⟨q, part, hq, -, -, -, -, hread⟩ :=
    @carries_run s 0 default sink rfl rfl hsteady hflush ops
  have hunread : taken = q.sink.taken := by
    rw [hq] at htaken
    exact (Option.some.inj htaken).symm
  have hsizes : ∀ op ∈ ops, ∀ m ∈ op.message?, m.Fits (2 ^ 64 - 1) := by
    simp only [ops, List.forall_mem_cons, Op.message?, Option.mem_some_iff, forall_eq']
    refine ⟨?_, ?_, ?_, ?_, nofun⟩ <;> intro payload he
    · have hlong : (Message.fileDef long).encode = .error (.nameTooLong 36) := by decide +kernel
      cases hlong.symm.trans he
    all_goals
      cases he
      decide
  have hlimit : ∀ m ∈ s.sent 0 ops, m.Fits (0 : UInt64).toNat := by
    rw [hsent]
    simp only [List.forall_mem_singleton]
    intro payload he
    cases he
    decide
  obtain ⟨e, hfatal, -, hall⟩ :=
    hread 0 ⟨[taken], .closed⟩ ((List.append_nil taken).trans hunread) hsizes hlimit
  refine ⟨e, hfatal, ?_⟩
  rw [hsent] at hall
  exact hall (by decide)

end PeerSet

end FileMesh
