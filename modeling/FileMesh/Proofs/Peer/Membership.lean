import FileMesh.Proofs.Peer.Sending
import Mathlib.Data.List.Perm.Basic

/-!
# Who is a member and who is closed

A connection that was added is a member until it is removed or a broadcast does not reach it,
whichever comes first; then it is closed. It may also be closed while it is a member, or without
ever having been one. However often all of this happens, its reader is told to stop once and its
writing half is shut down once.
-/

namespace FileMesh

/-! ## One connection -/

namespace Sink

variable (s : Sink)

@[simp] theorem shutdowns_writeAll (data : Bytes) :
    (s.writeAll data).2.shutdowns = s.shutdowns := by
  rw [writeAll]
  split
  · rfl
  · split
    · rfl
    · dsimp only
      split <;> rfl

@[simp] theorem shutdowns_writeFrame (kind : MessageType) (payload : Bytes) :
    (s.writeFrame kind payload).2.shutdowns = s.shutdowns := by
  have hheader := s.shutdowns_writeAll (FrameHeader.new kind (UInt64.ofNat payload.length)).encode
  rw [writeFrame]
  split
  · rename_i heq
    rwa [heq] at hheader
  · rename_i t heq
    rw [heq] at hheader
    rw [← hheader, ← t.shutdowns_writeAll payload]
    split <;> rename_i hpayload <;> rw [hpayload]

@[simp] theorem shutdowns_sendMessage (m : Message) :
    (s.sendMessage m).2.shutdowns = s.shutdowns := by
  rw [sendMessage]
  split
  · rfl
  · rename_i payload _
    have hframe := s.shutdowns_writeFrame m.type payload
    split <;> rename_i heq <;> rwa [heq] at hframe

end Sink

namespace Peer

variable {p : Peer}

/-- If the connection is closed, its reader was told to stop once and its writing half was shut down
once. If it is open, neither happened. -/
structure ClosedOnce (p : Peer) : Prop where
  wakeups : p.wakeups = p.isClosed.toNat
  shutdowns : p.sink.shutdowns = p.isClosed.toNat

namespace ClosedOnce

theorem connected {sink : Sink} (h : sink.shutdowns = 0) (address : SocketAddress) :
    (connected address sink).ClosedOnce := ⟨rfl, h⟩

theorem close (h : p.ClosedOnce) : p.close.ClosedOnce := by
  rw [Peer.close]
  split
  · exact h
  · rename_i hopen
    have hzero : p.isClosed.toNat = 0 := by simpa using hopen
    exact ⟨congrArg (· + 1) (h.wakeups.trans hzero), congrArg (· + 1) (h.shutdowns.trans hzero)⟩

theorem send (h : p.ClosedOnce) (m : Message) : (p.send m).2.ClosedOnce :=
  ⟨h.wakeups, (p.sink.shutdowns_sendMessage m).trans h.shutdowns⟩

theorem sendFrame (h : p.ClosedOnce) (kind : MessageType) (payload : Bytes) :
    (p.sendFrame kind payload).2.ClosedOnce :=
  ⟨h.wakeups, (p.sink.shutdowns_writeFrame kind payload).trans h.shutdowns⟩

end ClosedOnce

end Peer

namespace PeerSet

open scoped List

variable {s t u : PeerSet} {ids ids' : List PeerId} {id : PeerId} {ops : List Op}

/-! ## What is closed -/

/-- From `s` to `t` exactly these connections were closed, as far as they were open, and none more
than once. -/
def Closes (s t : PeerSet) (ids : List PeerId) : Prop :=
  ∀ id p, s.peer? id = some p → ∃ q, t.peer? id = some q ∧
    (q.isClosed = true ↔ p.isClosed = true ∨ id ∈ ids) ∧ (p.ClosedOnce → q.ClosedOnce)

theorem Closes.refl (s : PeerSet) : s.Closes s [] :=
  fun _ p hp => ⟨p, hp, by simp, fun h => h⟩

theorem Closes.trans (h : s.Closes t ids) (h' : t.Closes u ids') : s.Closes u (ids ++ ids') := by
  intro id p hp
  obtain ⟨q, hq, hclosed, honce⟩ := h id p hp
  obtain ⟨r, hr, hclosed', honce'⟩ := h' id q hq
  refine ⟨r, hr, ?_, fun hp => honce' (honce hp)⟩
  rw [hclosed', hclosed, List.mem_append, or_assoc]

theorem closes_close (s : PeerSet) (target : PeerId) : s.Closes (s.close target) [target] := by
  intro id p hp
  rw [close, peer?_modify, hp, List.mem_singleton]
  split
  · rename_i htarget
    exact ⟨p.close, rfl, by simp [htarget], Peer.ClosedOnce.close⟩
  · rename_i htarget
    exact ⟨p, rfl, by simp [Ne.symm htarget], fun h => h⟩

theorem closes_dropAll (s : PeerSet) (ids : List PeerId) : s.Closes (s.dropAll ids) ids := by
  intro id p hp
  rw [peer?_dropAll, hp]
  split
  · rename_i hid
    exact ⟨p.close, rfl, by simp [hid], Peer.ClosedOnce.close⟩
  · rename_i hid
    exact ⟨p, rfl, by simp [hid], fun h => h⟩

theorem closes_sendFrame (s : PeerSet) (target : PeerId) (kind : MessageType) (payload : Bytes) :
    s.Closes (s.sendFrame target kind payload).2 [] := by
  intro id p hp
  rw [peer?_sendFrame, hp]
  split
  · exact ⟨_, rfl, by simp [Peer.sendFrame], fun h => h.sendFrame kind payload⟩
  · exact ⟨p, rfl, by simp, fun h => h⟩

theorem closes_sendEach (kind : MessageType) (payload : Bytes) (ids : List PeerId) (s : PeerSet) :
    s.Closes (sendEach kind payload ids s).2 [] := by
  induction ids generalizing s with
  | nil => exact .refl s
  | cons target rest ih =>
    rw [sendEach_cons_snd]
    exact (s.closes_sendFrame target kind payload).trans (ih _)

theorem closes_send (s : PeerSet) (target : PeerId) (m : Message) :
    s.Closes (s.send target m).2 [] := by
  intro id p hp
  by_cases htarget : target = id
  · obtain rfl := htarget
    rw [send_of_peer? hp, peer?_modify, if_pos rfl, hp]
    exact ⟨_, rfl, by simp, fun h => h.send m⟩
  · exact ⟨p, (peer?_send_of_ne htarget s m).trans hp, by simp, fun h => h⟩

/-- A broadcast closes those that it did not reach. -/
theorem closes_broadcast (s : PeerSet) (m : Message) (skip : Option PeerId) :
    s.Closes (s.broadcast m skip).2 (s.broadcast m skip).1.failed := by
  simp only [broadcast]
  cases m.encode with
  | error e => exact .refl s
  | ok payload => exact (closes_sendEach m.type payload _ s).trans (closes_dropAll _ _)

/-! ## Who leaves -/

theorem perm_swapRemove {i : Nat} (h : i < ids.length) : ids[i] :: swapRemove ids i ~ ids := by
  obtain ⟨init, last, rfl⟩ : ∃ init last, ids = init ++ [last] :=
    ⟨_, _, (List.dropLast_append_getLast (List.ne_nil_of_length_pos (Nat.zero_lt_of_lt h))).symm⟩
  simp only [swapRemove, List.getLast?_concat]
  rw [List.length_append, List.length_singleton] at h
  rcases Nat.lt_or_eq_of_le (Nat.le_of_lt_succ h) with hlt | rfl
  · rw [List.set_append_left _ _ hlt, List.dropLast_concat, List.getElem_append_left hlt]
    calc init[i] :: init.set i last
        ~ init[i] :: last :: init.eraseIdx i := (List.set_perm_cons_eraseIdx hlt last).cons _
      _ ~ last :: init[i] :: init.eraseIdx i := .swap _ _ _
      _ ~ last :: init := (List.getElem_cons_eraseIdx_perm hlt).cons last
      _ ~ init ++ [last] := (List.perm_append_singleton last init).symm
  · -- The last one takes its own place.
    have hset : (init ++ [last]).set init.length last = init ++ [last] := by simp
    rw [hset, List.dropLast_concat, List.getElem_concat_length rfl]
    exact (List.perm_append_singleton last init).symm

theorem remove_of_not_mem (h : id ∉ s.members) : s.remove id = (false, s) := by
  have hidx : s.members.idxOf? id = none := List.idxOf?_eq_none_iff.2 h
  simp only [remove, hidx]

/-- Removing a member takes it out of the members and closes it. -/
theorem remove_of_mem (h : id ∈ s.members) : (s.remove id).1 = true ∧
    id :: (s.remove id).2.members ~ s.members ∧ s.Closes (s.remove id).2 [id] := by
  cases hidx : s.members.idxOf? id with
  | none => exact absurd h (List.idxOf?_eq_none_iff.1 hidx)
  | some i =>
    obtain ⟨hi, hget, -⟩ := List.idxOf?_eq_some_iff.1 hidx
    have hremove : s.remove id = (true, { s with members := swapRemove s.members i }.close id) := by
      simp only [remove, hidx]
    rw [hremove]
    refine ⟨rfl, ?_, closes_close { s with members := swapRemove s.members i } id⟩
    have hperm := perm_swapRemove hi
    rwa [hget] at hperm

theorem failed_sendEach_sublist (kind : MessageType) (payload : Bytes) (ids : List PeerId)
    (s : PeerSet) : (sendEach kind payload ids s).1.failed <+ ids := by
  induction ids generalizing s with
  | nil => exact .slnil
  | cons target rest ih =>
    rw [failed_sendEach_cons]
    split
    · exact (ih _).cons target
    · exact (ih _).cons_cons target

theorem failed_broadcast_sublist (s : PeerSet) (m : Message) (skip : Option PeerId) :
    (s.broadcast m skip).1.failed <+ s.members := by
  simp only [broadcast]
  cases m.encode with
  | error e => exact List.nil_sublist _
  | ok payload => exact (failed_sendEach_sublist _ _ _ s).trans List.filter_sublist

/-- A broadcast takes exactly those out of the members that it did not reach. -/
theorem perm_broadcast (h : s.members.Nodup) (m : Message) (skip : Option PeerId) :
    (s.broadcast m skip).1.failed ++ (s.broadcast m skip).2.members ~ s.members := by
  have hsublist := s.failed_broadcast_sublist m skip
  have hfailed : (s.broadcast m skip).1.failed ~
      s.members.filter fun id => (s.broadcast m skip).1.failed.contains id := by
    rw [List.perm_ext_iff_of_nodup (h.sublist hsublist) (h.filter _)]
    intro id
    simpa using fun hid => hsublist.subset hid
  rw [members_broadcast]
  exact (hfailed.append_right _).trans (List.filter_append_perm _ s.members)

/-! ## One operation -/

/-- Who becomes a member through an operation. -/
def addedBy (_ : PeerSet) : Op → List PeerId
  | .add target => [target]
  | _ => []

/-- Whom an operation reports as removed. -/
def removedBy (s : PeerSet) : Op → List PeerId
  | .remove target => if (s.remove target).1 then [target] else []
  | _ => []

/-- Whom an operation, a broadcast, reports as not reached. -/
def unreachedBy (s : PeerSet) : Op → List PeerId
  | .broadcast m skip => (s.broadcast m skip).1.failed
  | _ => []

/-- Who is closed by an operation that does nothing else. -/
def closedBy (_ : PeerSet) : Op → List PeerId
  | .close target => [target]
  | _ => []

/-- Who was a member or becomes one either stays a member or leaves. -/
theorem perm_apply (h : s.members.Nodup) (op : Op) :
    s.removedBy op ++ s.unreachedBy op ++ (s.apply op).members ~ s.members ++ s.addedBy op := by
  cases op with
  | send target m => simp [removedBy, unreachedBy, addedBy, apply]
  | broadcast m skip =>
    simpa [removedBy, unreachedBy, addedBy, apply] using perm_broadcast h m skip
  | close target => simp [removedBy, unreachedBy, addedBy, apply]
  | add target => simp [removedBy, unreachedBy, addedBy, apply]
  | remove target =>
    by_cases hmem : target ∈ s.members
    · obtain ⟨hanswer, hperm, -⟩ := remove_of_mem hmem
      simpa [removedBy, unreachedBy, addedBy, apply, hanswer] using hperm
    · simp [removedBy, unreachedBy, addedBy, apply, remove_of_not_mem hmem]

/-- Exactly those that leave, or that the operation closes, are closed. -/
theorem closes_apply (s : PeerSet) (op : Op) :
    s.Closes (s.apply op) (s.closedBy op ++ s.removedBy op ++ s.unreachedBy op) := by
  cases op with
  | send target m => exact s.closes_send target m
  | broadcast m skip => exact s.closes_broadcast m skip
  | close target => exact s.closes_close target
  | add target => exact .refl s
  | remove target =>
    by_cases hmem : target ∈ s.members
    · obtain ⟨hanswer, -, hcloses⟩ := remove_of_mem hmem
      simpa [closedBy, removedBy, unreachedBy, apply, hanswer] using hcloses
    · simpa [closedBy, removedBy, unreachedBy, apply, remove_of_not_mem hmem] using Closes.refl s

/-! ## Any number of operations -/

/-- What the operations of a run did, in order. -/
def collect (f : PeerSet → Op → List PeerId) : PeerSet → List Op → List PeerId
  | _, [] => []
  | s, op :: ops => f s op ++ collect f (s.apply op) ops

/-- Who was added. -/
def added (s : PeerSet) (ops : List Op) : List PeerId := collect addedBy s ops

/-- Who was reported as removed. -/
def removed (s : PeerSet) (ops : List Op) : List PeerId := collect removedBy s ops

/-- Who was reported as not reached by a broadcast. -/
def unreached (s : PeerSet) (ops : List Op) : List PeerId := collect unreachedBy s ops

/-- Who was closed without more. -/
def closed (s : PeerSet) (ops : List Op) : List PeerId := collect closedBy s ops

/-- If nobody is added twice, the members and those that left are those that were members or were
added. -/
theorem perm_run (h : (s.members ++ s.added ops).Nodup) :
    s.removed ops ++ s.unreached ops ++ (s.run ops).members ~ s.members ++ s.added ops := by
  induction ops generalizing s with
  | nil => simp [removed, unreached, added, collect, run]
  | cons op ops ih =>
    have hadded : s.added (op :: ops) = s.addedBy op ++ (s.apply op).added ops := rfl
    have hremoved : s.removed (op :: ops) = s.removedBy op ++ (s.apply op).removed ops := rfl
    have hunreached : s.unreached (op :: ops) = s.unreachedBy op ++ (s.apply op).unreached ops :=
      rfl
    have hrun : s.run (op :: ops) = (s.apply op).run ops := rfl
    rw [hadded] at h
    have hstep := perm_apply (h.sublist (List.sublist_append_left _ _)) op
    have hnext : ((s.apply op).members ++ (s.apply op).added ops).Nodup := by
      rw [← List.append_assoc] at h
      have hall := (hstep.append_right _).nodup_iff.2 h
      rw [List.append_assoc] at hall
      exact hall.sublist (List.sublist_append_right _ _)
    have hrest := ih hnext
    rw [List.perm_iff_count] at hstep hrest ⊢
    intro id
    have hstepId := hstep id
    have hrestId := hrest id
    simp only [hadded, hremoved, hunreached, hrun, List.count_append] at hstepId hrestId ⊢
    omega

/-- In a run exactly those are closed that left or that an operation closed. -/
theorem closes_run (s : PeerSet) (ops : List Op) : s.Closes (s.run ops)
    (collect (fun s op => s.closedBy op ++ s.removedBy op ++ s.unreachedBy op) s ops) := by
  induction ops generalizing s with
  | nil => exact .refl s
  | cons op ops ih => exact (s.closes_apply op).trans (ih (s.apply op))

theorem mem_collect_append {f g : PeerSet → Op → List PeerId} :
    id ∈ collect (fun s op => f s op ++ g s op) s ops ↔
      id ∈ collect f s ops ∨ id ∈ collect g s ops := by
  induction ops generalizing s with
  | nil => simp [collect]
  | cons op ops ih =>
    simp only [collect, List.mem_append, ih]
    tauto

/-- Begin with connections that were just made and of which none is a member, and let nobody be
added twice. Whatever operations follow, the members are then exactly those that were added and
neither removed nor missed by a broadcast, each of them once, and their number is what was added
less what left. Nobody leaves twice; whoever is no member is not removed, and then nothing changes.
A connection is closed just when it left or was closed. Its reader was told to stop once and its
writing half shut down once then, and otherwise neither happened. -/
theorem membership_run (hnone : s.members = [])
    (hmade : ∀ id p, s.peer? id = some p →
      ∃ address sink, p = .connected address sink ∧ sink.shutdowns = 0)
    (hadded : (s.added ops).Nodup) :
    let t := s.run ops
    t.members.Nodup ∧
    (∀ id, id ∈ t.members ↔ id ∈ s.added ops ∧ id ∉ s.removed ops ∧ id ∉ s.unreached ops) ∧
    t.size + (s.removed ops).length + (s.unreached ops).length = (s.added ops).length ∧
    (s.removed ops ++ s.unreached ops).Nodup ∧
    (∀ id, ((t.remove id).1 = true ↔ id ∈ t.members) ∧
      ((t.remove id).1 = false → (t.remove id).2 = t)) ∧
    (∀ id p, s.peer? id = some p → ∃ q, t.peer? id = some q ∧
      (q.isClosed = true ↔ id ∈ s.closed ops ∨ id ∈ s.removed ops ∨ id ∈ s.unreached ops) ∧
      q.wakeups = q.isClosed.toNat ∧ q.sink.shutdowns = q.isClosed.toNat) := by
  intro t
  have hperm : s.removed ops ++ s.unreached ops ++ t.members ~ s.added ops := by
    have hstart : (s.members ++ s.added ops).Nodup := by rwa [hnone, List.nil_append]
    have hall := perm_run hstart
    rwa [hnone, List.nil_append] at hall
  have hnodup := hperm.nodup_iff.2 hadded
  obtain ⟨hleft, hmembers, hapart⟩ := List.nodup_append.1 hnodup
  refine ⟨hmembers, ?_, ?_, hleft, ?_, ?_⟩
  · intro id
    have hstays (hid : id ∈ t.members) : id ∉ s.removed ops ++ s.unreached ops :=
      fun hgone => hapart id hgone id hid rfl
    rw [← hperm.mem_iff]
    simp only [List.mem_append, not_or] at hstays ⊢
    tauto
  · have hlength := hperm.length_eq
    simp only [List.length_append] at hlength
    show t.members.length + _ + _ = _
    omega
  · intro id
    by_cases hid : id ∈ t.members
    · obtain ⟨hanswer, -, -⟩ := remove_of_mem hid
      simp [hanswer, hid]
    · simp [remove_of_not_mem hid, hid]
  · intro id p hp
    obtain ⟨address, sink, rfl, hshutdowns⟩ := hmade id p hp
    obtain ⟨q, hq, hclosed, honce⟩ := s.closes_run ops id _ hp
    have hqonce := honce (.connected hshutdowns address)
    refine ⟨q, hq, ?_, hqonce.wakeups, hqonce.shutdowns⟩
    rw [hclosed, mem_collect_append, mem_collect_append, or_assoc]
    exact or_iff_right Bool.false_ne_true

/-- Of four connections the first is removed, twice. The second takes three bytes and no more; the
third was closed, and it is closed and removed again after a broadcast did not reach the two. -/
theorem membership_run_storm :
    let made : Sink → Peer := .connected default
    let s : PeerSet :=
      ⟨[made .unlimited, made (.limited (some 3) none false), made .unlimited, made .unlimited], []⟩
    let ops : List Op := [.add 0, .add 1, .add 2, .remove 3, .add 3, .close 2, .remove 0,
      .broadcast .requestAddrSelf none, .remove 0, .close 2, .remove 2]
    s.members = [] ∧ (s.added ops).Nodup ∧ s.removed ops = [0] ∧ s.unreached ops = [1, 2] ∧
      (s.run ops).size + 1 + 2 = 4 ∧ (∀ id, id ∈ (s.run ops).members ↔ id = 3) ∧
      ∃ q, (s.run ops).peer? 2 = some q ∧ q.isClosed = true ∧ q.wakeups = 1 ∧
        q.sink.shutdowns = 1 := by
  intro made s ops
  have hmade (id : PeerId) (p : Peer) (hp : s.peer? id = some p) :
      ∃ address sink, p = .connected address sink ∧ sink.shutdowns = 0 := by
    have hmem : p ∈ s.connections := List.mem_of_getElem? hp
    simp only [s, List.mem_cons, List.not_mem_nil, or_false] at hmem
    rcases hmem with rfl | rfl | rfl | rfl <;> exact ⟨_, _, rfl, rfl⟩
  have hadded : s.added ops = [0, 1, 2, 3] := by decide +kernel
  have hremoved : s.removed ops = [0] := by decide +kernel
  have hunreached : s.unreached ops = [1, 2] := by decide +kernel
  have hnodup : (s.added ops).Nodup := by
    rw [hadded]
    decide
  obtain ⟨-, hmembers, hsize, -, -, hpeers⟩ := membership_run rfl hmade hnodup
  rw [hadded, hremoved, hunreached] at hsize
  obtain ⟨q, hq, hclosed, hwakeups, hshutdowns⟩ := hpeers 2 _ rfl
  have hqclosed : q.isClosed = true := hclosed.2 (.inr (.inr (by rw [hunreached]; decide)))
  refine ⟨rfl, hnodup, hremoved, hunreached, hsize, ?_, q, hq, hqclosed, ?_, ?_⟩
  · intro id
    have hone (id : Nat) : id ∈ [0, 1, 2, 3] ∧ id ∉ [0] ∧ id ∉ [1, 2] ↔ id = 3 := by
      simp only [List.mem_cons, List.not_mem_nil, or_false]
      omega
    rw [hmembers, hadded, hremoved, hunreached]
    exact hone id
  · rw [hwakeups, hqclosed]
    rfl
  · rw [hshutdowns, hqclosed]
    rfl

end PeerSet

end FileMesh
