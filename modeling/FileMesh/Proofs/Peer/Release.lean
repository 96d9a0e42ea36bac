import FileMesh.Gossip
import FileMesh.Proofs.Peer.FanOut
import FileMesh.Proofs.Peer.Membership

/-!
# Connections that are let go

Sending to one connection, a broadcast and the removal of a member have this in common: nobody
becomes a member, no connection opens again, and a member that is still open afterwards is still a
member. A member whose connection takes whatever is written to it leaves only if it is itself
removed.
-/

namespace FileMesh.PeerSet

open scoped List

variable {s t u : PeerSet} {left : List PeerId} {id : PeerId}

/-- The number is that of a connection that was not closed. -/
def IsOpen (s : PeerSet) (id : PeerId) : Prop := ∃ p, s.peer? id = some p ∧ p.isClosed = false

/-- A member whose connection is open and takes whatever is written to it. -/
structure Healthy (s : PeerSet) (id : PeerId) : Prop where
  member : id ∈ s.members
  willing : ∃ p, s.peer? id = some p ∧ p.isClosed = false ∧ p.sink.Willing

/-- From `s` to `t` nobody becomes a member, no connection opens, and every member that is open in
the end has stayed. -/
structure Releases (s t : PeerSet) : Prop where
  nodup : t.members.Nodup
  members : t.members ⊆ s.members
  stays : ∀ id ∈ s.members, t.IsOpen id → id ∈ t.members
  opened : ∀ id, t.IsOpen id → s.IsOpen id
  length : t.connections.length = s.connections.length

theorem IsOpen.lt_length (h : s.IsOpen id) : id < s.connections.length := by
  obtain ⟨p, hp, -⟩ := h
  exact (List.getElem?_eq_some_iff.1 hp).1

namespace Releases

theorem refl (h : s.members.Nodup) : s.Releases s :=
  ⟨h, List.Subset.refl _, fun _ hid _ => hid, fun _ => id, rfl⟩

theorem trans (h : s.Releases t) (h' : t.Releases u) : s.Releases u where
  nodup := h'.nodup
  members := List.Subset.trans h'.members h.members
  stays id hid hopen := h'.stays id (h.stays id hid (h'.opened id hopen)) hopen
  opened id hopen := h.opened id (h'.opened id hopen)
  length := h'.length.trans h.length

/-- It is enough to know who left, that these were closed and nobody else, and that no connection
was made. -/
theorem of_closes (hnodup : s.members.Nodup) (hperm : left ++ t.members ~ s.members)
    (hcloses : s.Closes t left) (hlength : t.connections.length = s.connections.length) :
    s.Releases t := by
  -- An open connection was there before, as none was made, and so it is none of those that left.
  have hwas (id : PeerId) (hopen : t.IsOpen id) : s.IsOpen id ∧ id ∉ left := by
    obtain ⟨p, hp⟩ : ∃ p, s.peer? id = some p :=
      ⟨_, List.getElem?_eq_getElem (hlength ▸ hopen.lt_length)⟩
    obtain ⟨q, hq, hclosed⟩ := hopen
    obtain ⟨q', hq', hiff, -⟩ := hcloses id p hp
    obtain rfl := Option.some.inj (hq'.symm.trans hq)
    have hboth : ¬ (p.isClosed = true ∨ id ∈ left) := fun h => by simp [hiff.2 h] at hclosed
    obtain ⟨hopen, hnot⟩ := not_or.1 hboth
    exact ⟨⟨p, hp, Bool.eq_false_iff.2 hopen⟩, hnot⟩
  exact {
    nodup := (List.nodup_append.1 (hperm.nodup_iff.2 hnodup)).2.1
    members := fun id hid => hperm.subset (List.mem_append_right left hid)
    stays := fun id hid hopen =>
      (List.mem_append.1 (hperm.symm.subset hid)).resolve_left (hwas id hopen).2
    opened := fun id hopen => (hwas id hopen).1
    length := hlength }

end Releases

/-! ## Sending -/

theorem length_send (s : PeerSet) (id : PeerId) (m : Message) :
    (s.send id m).2.connections.length = s.connections.length := by
  rw [send]
  split
  · rfl
  · exact List.length_modify _ _ _

theorem releases_send (h : s.members.Nodup) (target : PeerId) (m : Message) :
    s.Releases (s.send target m).2 := by
  have hperm : [] ++ (s.send target m).2.members ~ s.members := .of_eq (s.members_send target m)
  exact .of_closes h hperm (s.closes_send target m) (s.length_send target m)

/-- A message that cannot be encoded does not reach the connection. -/
theorem Healthy.send (h : s.Healthy id) (target : PeerId) (m : Message) :
    (s.send target m).2.Healthy id := by
  obtain ⟨p, hp, hopen, hw⟩ := h.willing
  refine ⟨(s.members_send target m).symm ▸ h.member, ?_⟩
  by_cases htarget : target = id
  · obtain rfl := htarget
    cases he : m.encode with
    | error e =>
      rw [send_of_encode_error hp he]
      exact ⟨p, hp, hopen, hw⟩
    | ok payload =>
      rw [send_of_peer? hp, Peer.send_of_willing hw he, peer?_modify, if_pos rfl, hp]
      exact ⟨p.push m.frame, rfl, hopen, hw.append m.frame⟩
  · exact ⟨p, (peer?_send_of_ne htarget s m).trans hp, hopen, hw⟩

theorem releases_sendAll (h : s.members.Nodup) (target : PeerId) (ds : List Descriptor)
    (sent : Nat) : s.Releases (Gossip.sendAll target ds sent s).2 := by
  induction ds generalizing s sent with
  | nil => exact .refl h
  | cons d ds ih =>
    have hfirst := releases_send h target (.fileDef d)
    rw [Gossip.sendAll]
    split <;> rename_i heq <;> rw [heq] at hfirst
    · exact hfirst.trans (ih hfirst.nodup _)
    · exact hfirst.trans (ih hfirst.nodup _)
    · exact hfirst

theorem Healthy.sendAll (h : s.Healthy id) (target : PeerId) (ds : List Descriptor) (sent : Nat) :
    (Gossip.sendAll target ds sent s).2.Healthy id := by
  induction ds generalizing s sent with
  | nil => exact h
  | cons d ds ih =>
    have hfirst := h.send target (.fileDef d)
    rw [Gossip.sendAll]
    split <;> rename_i heq <;> rw [heq] at hfirst
    · exact ih hfirst _
    · exact ih hfirst _
    · exact hfirst

/-- Telling a healthy member the catalog does not fail: what cannot be encoded is left out. -/
theorem Healthy.isOk_sendAll (h : s.Healthy id) (ds : List Descriptor) (sent : Nat) :
    (Gossip.sendAll id ds sent s).1.isOk = true := by
  induction ds generalizing s sent with
  | nil => rfl
  | cons d ds ih =>
    obtain ⟨p, hp, -, hw⟩ := h.willing
    have hfirst := h.send id (.fileDef d)
    rw [Gossip.sendAll]
    cases he : (Message.fileDef d).encode with
    | error e =>
      rw [send_of_encode_error hp he] at hfirst ⊢
      exact ih hfirst _
    | ok payload =>
      rw [send_of_peer? hp, Peer.send_of_willing hw he] at hfirst ⊢
      exact ih hfirst _

/-! ## Broadcasts -/

theorem length_sendEach (kind : MessageType) (payload : Bytes) (ids : List PeerId) (s : PeerSet) :
    (sendEach kind payload ids s).2.connections.length = s.connections.length := by
  induction ids generalizing s with
  | nil => rfl
  | cons target rest ih =>
    rw [sendEach_cons_snd]
    exact (ih _).trans (s.length_sendFrame target kind payload)

theorem length_broadcast (s : PeerSet) (m : Message) (skip : Option PeerId) :
    (s.broadcast m skip).2.connections.length = s.connections.length := by
  simp only [broadcast]
  cases m.encode with
  | error e => rfl
  | ok payload => exact (length_dropAll _ _).trans (length_sendEach _ _ _ s)

theorem releases_broadcast (h : s.members.Nodup) (m : Message) (skip : Option PeerId) :
    s.Releases (s.broadcast m skip).2 :=
  .of_closes h (perm_broadcast h m skip) (s.closes_broadcast m skip) (s.length_broadcast m skip)

theorem Healthy.broadcast (h : s.Healthy id) (hnodup : s.members.Nodup) (m : Message)
    (skip : Option PeerId) : (s.broadcast m skip).2.Healthy id := by
  obtain ⟨p, hp, hopen, hw⟩ := h.willing
  cases he : m.encode with
  | error e =>
    rw [broadcast_of_encode_error he]
    exact h
  | ok payload =>
    have hfans := fansOut_broadcast hnodup he skip
    have htakes := Peer.takes_of_willing hw m.type payload
    have hreached : id ∉ (s.broadcast m skip).1.failed := by
      intro hfailed
      have hnot := (hfans.not_takes hfailed).2
      rw [takes_of_peer? hp, htakes] at hnot
      cases hnot
    refine ⟨(mem_members_broadcast s m skip id).2 ⟨h.member, hreached⟩, ?_⟩
    by_cases htarget : id ∈ s.targets skip
    · rw [hfans.target id htarget, hp, Option.map_some, Peer.attempt_of_takes htakes]
      exact ⟨_, rfl, hopen, hw.append _⟩
    · rw [hfans.other id htarget]
      exact ⟨p, hp, hopen, hw⟩

/-! ## Removal -/

theorem releases_remove (h : s.members.Nodup) (id : PeerId) : s.Releases (s.remove id).2 := by
  by_cases hid : id ∈ s.members
  · obtain ⟨-, hperm, hcloses⟩ := remove_of_mem hid
    refine .of_closes h hperm hcloses ?_
    rw [remove]
    split
    · rfl
    · exact List.length_modify _ _ _
  · rw [remove_of_not_mem hid]
    exact .refl h

/-- Whoever is removed is no member. -/
theorem not_mem_remove (h : s.members.Nodup) (id : PeerId) : id ∉ (s.remove id).2.members := by
  by_cases hid : id ∈ s.members
  · obtain ⟨-, hperm, -⟩ := remove_of_mem hid
    exact (List.nodup_cons.1 (hperm.nodup_iff.2 h)).1
  · rwa [remove_of_not_mem hid]

theorem Healthy.remove_of_ne (h : s.Healthy id) {target : PeerId} (hne : target ≠ id) :
    (s.remove target).2.Healthy id := by
  by_cases htarget : target ∈ s.members
  · obtain ⟨-, hperm, -⟩ := remove_of_mem htarget
    have hstays : id ∈ (s.remove target).2.members :=
      (List.mem_cons.1 (hperm.symm.subset h.member)).resolve_left (Ne.symm hne)
    refine ⟨hstays, ?_⟩
    have hpeer : (s.remove target).2.peer? id = s.peer? id := by
      rw [remove]
      split
      · rfl
      · exact (peer?_modify _ target id _).trans (if_neg hne)
    rw [hpeer]
    exact h.willing
  · rwa [remove_of_not_mem htarget]

end FileMesh.PeerSet
