import FileMesh.Node
import FileMesh.Proofs.Peer.Broadcast
import FileMesh.Proofs.Store
import Mathlib.Logic.Function.Basic
import Mathlib.Logic.Relation

/-!
# Nodes that are joined by links

A mesh is a number of nodes and the links between them. A link has a connection at each end, and
what is written at one end is read at the other, frame after frame. Three things happen in a mesh: a
node shares a file, a node reads the next frame of a connection, and an announcement that a node
owes its peers goes out. Accepting a descriptor and announcing it are separate steps, so anything
can happen in between.
-/

namespace FileMesh

/-! ## Descriptors on a connection -/

/-- The bytes of a descriptor on a connection. -/
def Descriptor.frame (d : Descriptor) : Bytes := (Message.fileDef d).frame

theorem Descriptor.exists_encode {d : Descriptor} (h : d.nameLength ≤ nameWidth) :
    ∃ payload, (Message.fileDef d).encode = .ok payload ∧ payload.length = width := by
  obtain ⟨payload, _, hpayload, hlength, -⟩ := decode_encode_of_le h
  exact ⟨payload, hpayload, hlength⟩

/-- A descriptor arrives with its hash; of its name at most the end is lost. -/
theorem Descriptor.readBack {d : Descriptor} (h : d.nameLength ≤ nameWidth) :
    ∃ d' : Descriptor, (Message.fileDef d).readBack = .ok (.fileDef d') ∧ d'.hash = d.hash ∧
      d'.nameLength ≤ nameWidth := by
  obtain ⟨payload, name, hpayload, hlength, hdecode, hname⟩ := decode_encode_of_le h
  have hencode : (Message.fileDef d).encode = .ok payload := hpayload
  refine ⟨{ d with name }, ?_, rfl, ?_⟩
  · simp only [Message.readBack, hencode, bind, Except.bind, Message.decode, Message.type,
      Message.checkLength_of_le (Nat.le_of_eq hlength.symm), hdecode]
    rfl
  · rw [nameLength, hname, nameField]
    exact (List.takeWhile_prefix _).length_le.trans h

/-! ## Meshes -/

/-- A descriptor that a node announces to its peers, but not back to the connection it came from,
unless the node has the file itself. -/
structure Announcement (ι : Type) where
  node : ι
  descriptor : Descriptor
  source : Option PeerId
deriving DecidableEq

/-- Sends an announcement to the peers of its node. -/
def Announcement.send {ι : Type} (a : Announcement ι) (peers : PeerSet) : PeerSet :=
  match a.source with
  | none => (Gossip.announce peers a.descriptor).2
  | some source => (Gossip.passOn peers a.descriptor source).2

theorem Announcement.send_eq {ι : Type} (a : Announcement ι) (peers : PeerSet) :
    a.send peers = (peers.broadcast (.fileDef a.descriptor) a.source).2 := by
  rw [send]
  cases a.source <;> rfl

/-- One end of a link: a node and its number for the connection. -/
abbrev Port (ι : Type) := ι × PeerId

/-- Nodes and the links between them. Every port has the one at the other end of its link and the
number of bytes that were read there. Announcements are still to be made or were made, the oldest
first. -/
structure Mesh (ι : Type) where
  node : ι → Node
  far : Port ι → Option (Port ι)
  read : Port ι → Nat
  pending : List (Announcement ι)
  made : List (Announcement ι)

namespace Mesh

variable {ι : Type}

/-- The bytes that were written to a connection. -/
def taken (m : Mesh ι) (x : Port ι) : Bytes :=
  (((m.node x.1).peers.peer? x.2).map fun p => p.sink.taken).getD []

/-- The bytes that are still to be read from a connection. -/
def unread (m : Mesh ι) (x : Port ι) : Bytes :=
  match m.far x with
  | none => []
  | some y => (m.taken y).drop (m.read x)

/-- The reader of a connection. -/
def reader (m : Mesh ι) (x : Port ι) : FrameReader := .ofSource ⟨[m.unread x], .closed⟩

theorem unread_reader (m : Mesh ι) (x : Port ι) : (m.reader x).unread = m.unread x :=
  List.append_nil _

/-- The node knows of a file with this hash. -/
def Knows (m : Mesh ι) (u : ι) (hash : ContentHash) : Prop := (m.node u).store.contains hash = true

instance (m : Mesh ι) (u : ι) (hash : ContentHash) : Decidable (m.Knows u hash) :=
  inferInstanceAs (Decidable (_ = true))

/-! ## Working links -/

/-- Each connection of a node is one end of a link, takes what is written to it, and lets
descriptors in; the stores are sound. -/
structure Joined (m : Mesh ι) : Prop where
  far_symm : ∀ x y, m.far x = some y → m.far y = some x
  mem_members_iff : ∀ x : Port ι, x.2 ∈ (m.node x.1).peers.members ↔ (m.far x).isSome = true
  nodup : ∀ u, (m.node u).peers.members.Nodup
  willing : ∀ u, (m.node u).peers.WillingAt (m.node u).peers.members
  limit : ∀ u, Descriptor.width ≤ (m.node u).config.maxFrameBytes.toNat
  valid : ∀ u, (m.node u).store.Valid
  keyed : ∀ u, (m.node u).store.Keyed

variable {m : Mesh ι} {x y : Port ι} {d : Descriptor} {rest : Bytes}

theorem Joined.mem_members (h : m.Joined) (hxy : m.far x = some y) :
    x.2 ∈ (m.node x.1).peers.members := by
  rw [h.mem_members_iff, hxy]
  rfl

theorem unread_eq (h : m.far x = some y) : m.unread x = (m.taken y).drop (m.read x) := by
  rw [unread, h]

variable [DecidableEq ι]

/-- The descriptors that were sent on a connection, oldest first. -/
def sentOn (m : Mesh ι) (x : Port ι) : List Descriptor :=
  (m.made.filter fun a => a.node = x.1 ∧ a.source ≠ some x.2).map Announcement.descriptor

/-! ## What happens -/

/-- A node goes on with this store, if there is one, and then owes its peers a descriptor. -/
def adopt (m : Mesh ι) (u : ι) (store : Option Store) (d : Descriptor) (source : Option PeerId) :
    Mesh ι :=
  match store with
  | none => m
  | some store =>
    { m with
      node := Function.update m.node u { m.node u with store }
      pending := m.pending ++ [⟨u, d, source⟩] }

/-- A node shares a file. Only a file that its store accepts is announced. -/
def share (m : Mesh ι) (u : ι) (d : Descriptor) (path : String) : Mesh ι :=
  m.adopt u ((m.node u).store.addFile d path).toOption d none

/-- A node handles a message of a connection. -/
def handle (m : Mesh ι) (x : Port ι) : Except FrameError Message → Mesh ι
  | .ok (.fileDef d) => m.adopt x.1 (Gossip.learn (m.node x.1).store d) d (some x.2)
  | _ => m

/-- So many more bytes were read from a connection. -/
def skip (m : Mesh ι) (x : Port ι) (n : Nat) : Mesh ι :=
  { m with read := Function.update m.read x (m.read x + n) }

/-- A node reads the next frame of a connection and handles it. -/
def deliver (m : Mesh ι) (x : Port ι) : Mesh ι :=
  let answer := (m.reader x).next (m.node x.1).config.maxFrameBytes.toNat
  (m.handle x answer.1).skip x ((m.unread x).length - answer.2.unread.length)

/-- An announcement is made. -/
def make (m : Mesh ι) (a : Announcement ι) : Mesh ι :=
  { m with
    node := Function.update m.node a.node
      { m.node a.node with peers := a.send (m.node a.node).peers }
    made := m.made ++ [a] }

/-- One of the announcements still to be made is made. -/
def announce (m : Mesh ι) (k : Nat) : Mesh ι :=
  match m.pending[k]? with
  | none => m
  | some a => { m.make a with pending := m.pending.eraseIdx k }

/-- What can happen in a mesh: a node shares a file at a path or reads a frame of a connection, or
an announcement is made, of those still to be made the one at `k`. -/
inductive Event (ι : Type) where
  | share (node : ι) (descriptor : Descriptor) (path : String)
  | deliver (port : Port ι)
  | announce (k : Nat)

/-- The mesh after an event. -/
def step (m : Mesh ι) : Event ι → Mesh ι
  | .share u d path => m.share u d path
  | .deliver x => m.deliver x
  | .announce k => m.announce k

/-- The mesh after one event after the other. -/
def run (m : Mesh ι) (events : List (Event ι)) : Mesh ι := events.foldl step m

/-! ## What an event does -/

theorem skip_zero (m : Mesh ι) (x : Port ι) : m.skip x 0 = m := by
  rw [skip, Nat.add_zero, Function.update_eq_self]

theorem read_skip_self (m : Mesh ι) (x : Port ι) (n : Nat) : (m.skip x n).read x = m.read x + n :=
  Function.update_self ..

theorem read_skip_of_ne (h : y ≠ x) (n : Nat) : (m.skip x n).read y = m.read y :=
  Function.update_of_ne h ..

theorem unread_skip_self (m : Mesh ι) (x : Port ι) (n : Nat) :
    (m.skip x n).unread x = (m.unread x).drop n := by
  have hfar : (m.skip x n).far x = m.far x := rfl
  cases hx : m.far x with
  | none => rw [unread, hfar, hx, unread, hx, List.drop_nil]
  | some y =>
    rw [unread_eq (hfar.trans hx), unread_eq hx, read_skip_self, List.drop_drop]
    rfl

theorem unread_skip_of_ne (h : y ≠ x) (n : Nat) : (m.skip x n).unread y = m.unread y := by
  rw [unread, unread, read_skip_of_ne h]
  rfl

theorem Joined.skip (h : m.Joined) (x : Port ι) (n : Nat) : (m.skip x n).Joined :=
  ⟨h.far_symm, h.mem_members_iff, h.nodup, h.willing, h.limit, h.valid, h.keyed⟩

/-- A descriptor that is next is read and handled. -/
theorem deliver_of_frame (h : m.Joined) (hd : d.nameLength ≤ nameWidth)
    (hunread : m.unread x = d.frame ++ rest) :
    ∃ d' : Descriptor, d'.hash = d.hash ∧ d'.nameLength ≤ nameWidth ∧
      m.deliver x = (m.adopt x.1 (Gossip.learn (m.node x.1).store d') d' (some x.2)).skip x
        d.frame.length := by
  obtain ⟨payload, hpayload, hlength⟩ := Descriptor.exists_encode hd
  obtain ⟨d', hback, hhash, hname⟩ := Descriptor.readBack hd
  have hreader : (m.reader x).unread = (Message.fileDef d).frame ++ rest :=
    (m.unread_reader x).trans hunread
  obtain ⟨hanswer, hrest⟩ :=
    FrameReader.next_of_frame hpayload (hlength ▸ h.limit x.1) hreader
  refine ⟨d', hhash, hname, ?_⟩
  have hconsumed : (m.unread x).length - rest.length = d.frame.length := by
    rw [hunread, List.length_append, Nat.add_sub_cancel]
  rw [deliver, hanswer, hrest, hback, hconsumed]
  rfl

/-- Where nothing is left to read, nothing happens. -/
theorem deliver_of_nil (hunread : m.unread x = []) : m.deliver x = m := by
  have hreader : (m.reader x).unread = [] := (m.unread_reader x).trans hunread
  obtain ⟨e, r', hnext, -⟩ :=
    FrameReader.next_of_nil hreader (m.node x.1).config.maxFrameBytes.toNat
  rw [deliver, hnext, hunread, List.length_nil, Nat.zero_sub, skip_zero]
  rfl

section Adopt

variable (m) (u : ι) (store : Option Store) (d) (source : Option PeerId)

theorem node_adopt_some (store : Store) (v : ι) : (m.adopt u (some store) d source).node v =
    if v = u then { m.node v with store } else m.node v := by
  rw [adopt]
  by_cases h : v = u
  · rw [if_pos h, h]
    exact Function.update_self ..
  · rw [if_neg h]
    exact Function.update_of_ne h ..

/-- Only stores and what is to be announced change. -/
theorem peers_adopt (v : ι) :
    ((m.adopt u store d source).node v).peers = (m.node v).peers ∧
      ((m.adopt u store d source).node v).config = (m.node v).config := by
  cases store with
  | none => exact ⟨rfl, rfl⟩
  | some store =>
    rw [node_adopt_some]
    split <;> exact ⟨rfl, rfl⟩

theorem far_adopt : (m.adopt u store d source).far = m.far := by
  cases store <;> rfl

theorem read_adopt : (m.adopt u store d source).read = m.read := by
  cases store <;> rfl

theorem made_adopt : (m.adopt u store d source).made = m.made := by
  cases store <;> rfl

theorem sentOn_adopt (x : Port ι) : (m.adopt u store d source).sentOn x = m.sentOn x := by
  rw [sentOn, made_adopt, sentOn]

theorem taken_adopt (x : Port ι) : (m.adopt u store d source).taken x = m.taken x := by
  rw [taken, (peers_adopt ..).1, taken]

theorem unread_adopt (x : Port ι) : (m.adopt u store d source).unread x = m.unread x := by
  simp only [unread, far_adopt, read_adopt, taken_adopt]

end Adopt

theorem Joined.adopt (h : m.Joined) {u : ι} {e : Entry} {store : Store}
    (hi : (m.node u).store.insert e = .ok store) (source : Option PeerId) :
    (m.adopt u (some store) e.descriptor source).Joined := by
  refine ⟨?_, fun x => ?_, fun v => ?_, fun v => ?_, fun v => ?_, fun v => ?_, fun v => ?_⟩
  · rw [far_adopt]
    exact h.far_symm
  · rw [far_adopt, (peers_adopt ..).1]
    exact h.mem_members_iff x
  · rw [(peers_adopt ..).1]
    exact h.nodup v
  · rw [(peers_adopt ..).1]
    exact h.willing v
  · rw [(peers_adopt ..).2]
    exact h.limit v
  · rw [node_adopt_some]
    split
    · exact (h.valid u).insert hi
    · exact h.valid v
  · rw [node_adopt_some]
    split
    · exact (h.keyed u).insert (h.valid u) hi
    · exact h.keyed v

/-- An announcement is sent on every connection of its node but the one it came from. -/
theorem sentOn_make (m : Mesh ι) (a : Announcement ι) (x : Port ι) : (m.make a).sentOn x =
    m.sentOn x ++ if a.node = x.1 ∧ a.source ≠ some x.2 then [a.descriptor] else [] := by
  rw [sentOn, make, List.filter_append, List.map_append, sentOn]
  congr 1
  by_cases h : a.node = x.1 ∧ a.source ≠ some x.2
  · rw [List.filter_cons, if_pos (decide_eq_true h), if_pos h]
    rfl
  · rw [List.filter_cons, if_neg fun hc => h (of_decide_eq_true hc), if_neg h]
    rfl

theorem node_make (m : Mesh ι) (a : Announcement ι) (u : ι) : (m.make a).node u =
    if a.node = u then { m.node u with peers := a.send (m.node u).peers } else m.node u := by
  rw [make]
  by_cases h : a.node = u
  · rw [if_pos h, h]
    exact Function.update_self ..
  · rw [if_neg h]
    exact Function.update_of_ne (Ne.symm h) ..

/-- So much is written when an announcement is made. -/
theorem taken_make (h : m.Joined) {a : Announcement ι}
    (hfits : a.descriptor.nameLength ≤ nameWidth) (hx : x.2 ∈ (m.node x.1).peers.members) :
    (m.make a).taken x = m.taken x ++
      if a.node = x.1 ∧ a.source ≠ some x.2 then a.descriptor.frame else [] := by
  rw [taken, taken, node_make]
  by_cases hnode : a.node = x.1
  · obtain ⟨payload, hpayload, -⟩ := Descriptor.exists_encode hfits
    obtain ⟨p, hp, -⟩ := h.willing x.1 x.2 hx
    have hpeer := PeerSet.peer?_broadcast_of_willing (h.nodup x.1) (h.willing x.1) hpayload
      a.source x.2
    simp only [if_pos hnode, Announcement.send_eq, hpeer, hp]
    by_cases hsource : a.source = some x.2
    · simp [hsource]
    · simp [hnode, hx, hsource, Ne.symm hsource, Peer.push, Descriptor.frame]
  · rw [if_neg hnode, if_neg fun hc => hnode hc.1, List.append_nil]

/-- Nobody leaves when an announcement is made. -/
theorem members_make (h : m.Joined) (a : Announcement ι) (u : ι) :
    ((m.make a).node u).peers.members = (m.node u).peers.members := by
  rw [node_make]
  split
  · simp only [Announcement.send_eq]
    exact PeerSet.members_broadcast_of_willing (h.nodup u) (h.willing u) _ _
  · rfl

/-- Links go on working. -/
theorem Joined.make (h : m.Joined) {a : Announcement ι}
    (hfits : a.descriptor.nameLength ≤ nameWidth) : (m.make a).Joined := by
  obtain ⟨payload, hpayload, -⟩ := Descriptor.exists_encode hfits
  have hsame (u : ι) : ((m.make a).node u).store = (m.node u).store ∧
      ((m.make a).node u).config = (m.node u).config := by
    rw [node_make]
    split <;> exact ⟨rfl, rfl⟩
  refine ⟨h.far_symm, fun x => ?_, fun u => ?_, fun u => ?_, fun u => ?_, fun u => ?_, fun u => ?_⟩
  · rw [members_make h]
    exact h.mem_members_iff x
  · rw [members_make h]
    exact h.nodup u
  · rw [members_make h, node_make]
    split
    · simp only [Announcement.send_eq]
      exact PeerSet.willingAt_broadcast (h.nodup u) (h.willing u) hpayload _
    · exact h.willing u
  · rw [(hsame u).2]
    exact h.limit u
  · rw [(hsame u).1]
    exact h.valid u
  · rw [(hsame u).1]
    exact h.keyed u

end Mesh

end FileMesh
