import FileMesh.Address
import FileMesh.Frame.Sink

/-!
# Peers

A peer is one connection, seen from this end: the remote address and the writing half. The members
of a peer set are the connections a node talks to. A broadcast goes to every member in turn,
whatever happens to the others, and the members it could not reach leave afterwards. Whoever leaves
is closed, and nobody is closed twice.
-/

namespace FileMesh

/-- One connection: the remote address, the writing half, whether it was closed, and how often its
reader was told to stop. -/
structure Peer where
  address : SocketAddress
  sink : Sink
  isClosed : Bool
  wakeups : Nat

namespace Peer

/-- A connection that was just made. -/
def connected (address : SocketAddress) (sink : Sink) : Peer := ⟨address, sink, false, 0⟩

/-- Sends a message. -/
def send (p : Peer) (message : Message) : Except FrameError Unit × Peer :=
  let (result, sink) := p.sink.sendMessage message
  (result, { p with sink })

/-- Sends a frame. -/
def sendFrame (p : Peer) (kind : MessageType) (payload : Bytes) : Except IoError Unit × Peer :=
  let (result, sink) := p.sink.writeFrame kind payload
  (result, { p with sink })

/-- Tells the reader to stop and shuts the writing half down. A closed connection stays as it is. -/
def close (p : Peer) : Peer :=
  if p.isClosed then p
  else { p with isClosed := true, wakeups := p.wakeups + 1, sink := p.sink.shutdown }

@[simp] theorem isClosed_close (p : Peer) : p.close.isClosed = true := by
  by_cases h : p.isClosed = true <;> simp [close, h]

@[simp] theorem close_close (p : Peer) : p.close.close = p.close := by
  rw [close, if_pos p.isClosed_close]

@[simp] theorem isClosed_send (p : Peer) (message : Message) :
    (p.send message).2.isClosed = p.isClosed := rfl

end Peer

abbrev PeerId := Nat

/-- What came of a broadcast: how many members were reached, and which were not, in order. -/
structure Report where
  sent : Nat
  failed : List PeerId
deriving DecidableEq, Repr, Inhabited

/-- The connections of a node. Every connection that was ever made has a number, and the members are
the numbers of those in use. -/
structure PeerSet where
  connections : List Peer
  members : List PeerId

namespace PeerSet

def empty : PeerSet := ⟨[], []⟩

instance : Inhabited PeerSet := ⟨empty⟩

/-- The connection with a number. -/
def peer? (s : PeerSet) (id : PeerId) : Option Peer := s.connections[id]?

def modify (s : PeerSet) (id : PeerId) (f : Peer → Peer) : PeerSet :=
  { s with connections := s.connections.modify id f }

/-- A new connection, which is no member yet. -/
def connect (s : PeerSet) (p : Peer) : PeerId × PeerSet :=
  (s.connections.length, { s with connections := s.connections ++ [p] })

def size (s : PeerSet) : Nat := s.members.length

def isEmpty (s : PeerSet) : Bool := s.members.isEmpty

def contains (s : PeerSet) (id : PeerId) : Bool := s.members.contains id

/-- Makes a connection a member. -/
def add (s : PeerSet) (id : PeerId) : PeerSet := { s with members := s.members ++ [id] }

/-- Closes a connection. -/
def close (s : PeerSet) (id : PeerId) : PeerSet := s.modify id Peer.close

/-- The list without the element at `i`; the last element takes its place. -/
def swapRemove (ids : List PeerId) (i : Nat) : List PeerId :=
  match ids.getLast? with
  | none => ids
  | some last => (ids.set i last).dropLast

/-- Removes a member and closes it. The answer is whether it was a member; others are left alone. -/
def remove (s : PeerSet) (id : PeerId) : Bool × PeerSet :=
  match s.members.idxOf? id with
  | none => (false, s)
  | some i => (true, { s with members := swapRemove s.members i }.close id)

/-- Sends a message on a connection. -/
def send (s : PeerSet) (id : PeerId) (message : Message) : Except FrameError Unit × PeerSet :=
  match s.peer? id with
  | none => (.error .closed, s)
  | some p =>
    let (result, p) := p.send message
    (result, s.modify id fun _ => p)

/-- Sends a frame on a connection. -/
def sendFrame (s : PeerSet) (id : PeerId) (kind : MessageType) (payload : Bytes) :
    Except IoError Unit × PeerSet :=
  match s.peer? id with
  | none => (.error .brokenPipe, s)
  | some p =>
    let (result, p) := p.sendFrame kind payload
    (result, s.modify id fun _ => p)

/-- Sends a frame to each of these connections. -/
def sendEach (kind : MessageType) (payload : Bytes) : List PeerId → PeerSet → Report × PeerSet
  | [], s => (⟨0, []⟩, s)
  | id :: rest, s =>
    match s.sendFrame id kind payload with
    | (.ok (), s) =>
      let (report, s) := sendEach kind payload rest s
      ({ report with sent := report.sent + 1 }, s)
    | (.error _, s) =>
      let (report, s) := sendEach kind payload rest s
      ({ report with failed := id :: report.failed }, s)

/-- Removes members in order and then closes them. -/
def dropAll (s : PeerSet) (ids : List PeerId) : PeerSet :=
  ids.foldl close { s with members := s.members.filter fun id => !ids.contains id }

/-- Sends a message to every member but `skip`. A message that cannot be encoded goes to nobody. -/
def broadcast (s : PeerSet) (message : Message) (skip : Option PeerId) : Report × PeerSet :=
  match message.encode with
  | .error _ => (⟨0, []⟩, s)
  | .ok payload =>
    let targets := s.members.filter fun id => some id != skip
    let (report, s) := sendEach message.type payload targets s
    (report, s.dropAll report.failed)

/-! ## Who is a member -/

@[simp] theorem members_connect (s : PeerSet) (p : Peer) :
    (s.connect p).2.members = s.members := rfl

@[simp] theorem members_add (s : PeerSet) (id : PeerId) :
    (s.add id).members = s.members ++ [id] := rfl

@[simp] theorem members_close (s : PeerSet) (id : PeerId) : (s.close id).members = s.members := rfl

@[simp] theorem members_send (s : PeerSet) (id : PeerId) (message : Message) :
    (s.send id message).2.members = s.members := by
  simp only [send]
  split <;> rfl

@[simp] theorem members_sendFrame (s : PeerSet) (id : PeerId) (kind : MessageType)
    (payload : Bytes) : (s.sendFrame id kind payload).2.members = s.members := by
  simp only [sendFrame]
  split <;> rfl

@[simp] theorem members_sendEach (kind : MessageType) (payload : Bytes) (ids : List PeerId)
    (s : PeerSet) : (sendEach kind payload ids s).2.members = s.members := by
  induction ids generalizing s with
  | nil => rfl
  | cons id rest ih =>
    have h := members_sendFrame s id kind payload
    rw [sendEach]
    split <;> rename_i hs <;> rw [hs] at h <;> exact (ih _).trans h

@[simp] theorem members_dropAll (s : PeerSet) (ids : List PeerId) :
    (s.dropAll ids).members = s.members.filter fun id => !ids.contains id := by
  have close_all (ids : List PeerId) (t : PeerSet) : (ids.foldl close t).members = t.members := by
    induction ids generalizing t with
    | nil => rfl
    | cons id rest ih => exact ih (t.close id)
  exact close_all ids _

/-- After a broadcast the members are those that were reached or skipped, in the same order. -/
theorem members_broadcast (s : PeerSet) (message : Message) (skip : Option PeerId) :
    (s.broadcast message skip).2.members =
      s.members.filter fun id => !(s.broadcast message skip).1.failed.contains id := by
  simp only [broadcast]
  split
  · exact (List.filter_eq_self.2 fun _ _ => rfl).symm
  · rw [members_dropAll, members_sendEach]

end PeerSet

end FileMesh
