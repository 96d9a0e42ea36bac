import FileMesh.Node.Connection
import FileMesh.Proofs.Gossip.Mesh
import FileMesh.Proofs.Sharing

/-!
# A peer that joins while files are learned

A node learns descriptors, each in two steps: the descriptor is put into the store, and later it is
announced to the members. A connection joins in three: it becomes a member, then the catalog is
read from the store, then the descriptors in it are sent. All of these steps can come between one
another, and an announcement writes to one member after the other while the catalog is being sent.
Only membership is guarded: while an announcement is under way nobody becomes a member.
-/

namespace FileMesh

/-- A connection that comes in: the addresses of both ends and what is written to. -/
structure Incoming where
  remote : SocketAddress
  near : SocketAddress
  sink : Sink

/-- A descriptor that a node learned, with the connection it came from, unless the node has the file
itself. -/
structure Learned where
  descriptor : Descriptor
  source : Option PeerId
deriving DecidableEq

/-- An announcement that is under way: the descriptor with its encoding, the members that are still
to be written to, and those to which writing failed. -/
structure FanOut where
  descriptor : Descriptor
  payload : Bytes
  targets : List PeerId
  failed : List PeerId
deriving DecidableEq

/-- How far a connection is with joining: it is no member yet, it is a member and the catalog is
still to be read, the rest of the catalog is still to be sent, or sending failed and it is still to
be removed. -/
inductive Stage where
  | apart
  | joined
  | told (rest : List Descriptor)
  | broken
deriving DecidableEq

/-- A node while a connection joins it. What the node learned and has not begun to announce is
`owed`, one announcement is `active` at a time, and the connections to which sending failed are
`lost`. -/
structure Joining where
  node : Node
  learned : List Learned
  owed : List Learned
  active : Option FanOut
  joiner : PeerId
  stage : Stage
  lost : List PeerId

namespace Joining

variable {s : Joining} {d : Descriptor}

/-- A node to which nothing is to be announced and a connection comes, with the next free number. -/
def start (n : Node) : Joining where
  node := n
  learned := []
  owed := []
  active := none
  joiner := n.peers.connections.length
  stage := .apart
  lost := []

/-- Nothing is left to be done. -/
structure Finished (s : Joining) : Prop where
  owed : s.owed = []
  active : s.active = none
  stage : s.stage = .told []

/-! ## Steps -/

/-- The same with other connections. -/
def withPeers (s : Joining) (peers : PeerSet) : Joining := { s with node := { s.node with peers } }

/-- The node goes on with this store, if there is one, and then owes its peers a descriptor. -/
def adopt (s : Joining) (store : Option Store) (l : Learned) : Joining :=
  match store with
  | none => s
  | some store =>
    { s with
      node := { s.node with store }
      learned := s.learned ++ [l]
      owed := s.owed ++ [l] }

/-- An announcement to those that are members now, but for the one that the descriptor came from. -/
def fanOut (s : Joining) (l : Learned) (payload : Bytes) : FanOut where
  descriptor := l.descriptor
  payload := payload
  targets := s.node.peers.members.filter fun id => some id != l.source
  failed := []

/-- An announcement begins, unless one is under way. One that cannot be encoded goes to nobody. -/
def announce (s : Joining) (k : Nat) : Joining :=
  match s.active, s.owed[k]? with
  | none, some l =>
    { s with
      owed := s.owed.eraseIdx k
      active := match (Message.fileDef l.descriptor).encode with
        | .error _ => none
        | .ok payload => some (s.fanOut l payload) }
  | _, _ => s

/-- The announcement that is under way is written to the next of its members. After the last one the
members that were not reached are removed. -/
def push (s : Joining) : Joining :=
  match s.active with
  | none => s
  | some ⟨_, _, [], failed⟩ =>
    { s.withPeers (s.node.peers.dropAll failed) with active := none }
  | some ⟨d, payload, id :: rest, failed⟩ =>
    match s.node.peers.sendFrame id .fileDef payload with
    | (.ok (), peers) => { s.withPeers peers with active := some ⟨d, payload, rest, failed⟩ }
    | (.error _, peers) =>
      { s.withPeers peers with
        active := some ⟨d, payload, rest, failed ++ [id]⟩
        lost := s.lost ++ [id] }

/-- The connection becomes a member, once no announcement is under way. -/
def attach (c : Incoming) (s : Joining) : Joining :=
  match s.stage, s.active with
  | .apart, none =>
    let (id, node) := s.node.attach c.remote c.near c.sink
    { s with node, joiner := id, stage := .joined }
  | _, _ => s

/-- The catalog is read. -/
def list (s : Joining) : Joining :=
  match s.stage with
  | .joined => { s with stage := .told s.node.store.descriptors }
  | _ => s

/-- The next descriptor of the catalog is sent. One that cannot be encoded is left out. -/
def greet (s : Joining) : Joining :=
  match s.stage with
  | .told (d :: rest) =>
    match s.node.peers.send s.joiner (.fileDef d) with
    | (.ok (), peers) => { s.withPeers peers with stage := .told rest }
    | (.error (.protocol _), peers) => { s.withPeers peers with stage := .told rest }
    | (.error _, peers) =>
      { s.withPeers peers with stage := .broken, lost := s.lost ++ [s.joiner] }
  | _ => s

/-- A connection to which sending the catalog failed is removed, once no announcement is under way.
-/
def leave (s : Joining) : Joining :=
  match s.stage, s.active with
  | .broken, none => { s with node := s.node.drop s.joiner, stage := .told [] }
  | _, _ => s

/-- What can happen: a file of this host or a descriptor from a peer is put into the store, an
announcement that is owed begins, the one that is under way goes on, the connection becomes a
member, the catalog is read, its next descriptor is sent, or the connection is removed because
sending failed. -/
inductive Event where
  | share (descriptor : Descriptor) (path : String)
  | hear (descriptor : Descriptor) (source : PeerId)
  | announce (k : Nat)
  | push
  | attach
  | list
  | greet
  | leave

/-- What one event does. -/
def step (c : Incoming) (s : Joining) : Event → Joining
  | .share d path => s.adopt (s.node.store.addFile d path).toOption ⟨d, none⟩
  | .hear d source => s.adopt (Gossip.learn s.node.store d) ⟨d, some source⟩
  | .announce k => s.announce k
  | .push => s.push
  | .attach => s.attach c
  | .list => s.list
  | .greet => s.greet
  | .leave => s.leave

/-- What one event after the other does. -/
def run (c : Incoming) (s : Joining) (events : List Event) : Joining := events.foldl (step c) s

theorem run_cons (c : Incoming) (s : Joining) (event : Event) (events : List Event) :
    run c s (event :: events) = run c (step c s event) events := rfl

theorem run_append (c : Incoming) (s : Joining) (before after : List Event) :
    run c s (before ++ after) = run c (run c s before) after := List.foldl_append

/-! ### Single steps -/

theorem announce_of_active {f : FanOut} (h : s.active = some f) (k : Nat) : s.announce k = s := by
  simp only [announce, h]

theorem announce_of_none {k : Nat} (h : s.owed[k]? = none) : s.announce k = s := by
  rw [announce]
  split
  · rename_i howed
    rw [h] at howed
    cases howed
  · rfl

theorem push_of_none (h : s.active = none) : s.push = s := by
  simp only [push, h]

/-- Unless there is something in the catalog that is still to be sent, nothing is sent. -/
theorem greet_eq_self (h : ∀ d rest, s.stage ≠ .told (d :: rest)) : s.greet = s := by
  rw [greet]
  split
  · rename_i hstage
    exact absurd hstage (h _ _)
  · rfl

theorem leave_eq_self (h : s.stage ≠ .broken) : s.leave = s := by
  rw [leave]
  split
  · rename_i hstage _
    exact absurd hstage h
  · rfl

section Push

variable {payload : Bytes} {id : PeerId} {rest failed : List PeerId} {peers : PeerSet}

theorem push_of_nil (h : s.active = some ⟨d, payload, [], failed⟩) :
    s.push = { s.withPeers (s.node.peers.dropAll failed) with active := none } := by
  simp only [push, h]

theorem push_of_ok (h : s.active = some ⟨d, payload, id :: rest, failed⟩)
    (hsend : s.node.peers.sendFrame id .fileDef payload = (.ok (), peers)) :
    s.push = { s.withPeers peers with active := some ⟨d, payload, rest, failed⟩ } := by
  simp only [push, h, hsend]

theorem push_of_error {cause : IoError} (h : s.active = some ⟨d, payload, id :: rest, failed⟩)
    (hsend : s.node.peers.sendFrame id .fileDef payload = (.error cause, peers)) :
    s.push = { s.withPeers peers with
      active := some ⟨d, payload, rest, failed ++ [id]⟩
      lost := s.lost ++ [id] } := by
  simp only [push, h, hsend]

end Push

/-! ## Steps that nothing comes between -/

/-- An announcement that nothing comes between writes to one member after the other and then removes
those that were not reached. -/
theorem run_push (c : Incoming) {payload : Bytes} {targets failed : List PeerId}
    (h : s.active = some ⟨d, payload, targets, failed⟩) :
    let sent := PeerSet.sendEach .fileDef payload targets s.node.peers
    run c s (List.replicate (targets.length + 1) .push) =
      { s.withPeers (sent.2.dropAll (failed ++ sent.1.failed)) with
        active := none
        lost := s.lost ++ sent.1.failed } := by
  induction targets generalizing s failed with
  | nil =>
    simp only [List.length_nil, PeerSet.sendEach, List.append_nil]
    exact push_of_nil h
  | cons id rest ih =>
    simp only [List.length_cons, List.replicate_succ (n := rest.length + 1), run_cons, step,
      PeerSet.sendEach_cons_snd, PeerSet.failed_sendEach_cons]
    cases hsend : s.node.peers.sendFrame id .fileDef payload with
    | mk result peers =>
      cases result with
      | ok =>
        rw [push_of_ok h hsend, ih rfl]
        rfl
      | error cause =>
        rw [push_of_error h hsend, ih rfl]
        simp only [List.append_assoc]
        rfl

/-- So it is a broadcast. -/
theorem run_broadcast (c : Incoming) {k : Nat} {l : Learned} (hactive : s.active = none)
    (hl : s.owed[k]? = some l) : ∃ pushes : Nat,
      let sent := s.node.peers.broadcast (.fileDef l.descriptor) l.source
      run c s (.announce k :: List.replicate pushes .push) =
        { s.withPeers sent.2 with
          owed := s.owed.eraseIdx k
          active := none
          lost := s.lost ++ sent.1.failed } := by
  simp only [PeerSet.broadcast]
  cases hencode : (Message.fileDef l.descriptor).encode with
  | error cause =>
    refine ⟨0, ?_⟩
    simp only [List.replicate_zero, run_cons, step, announce, hactive, hl, hencode,
      List.append_nil]
    rfl
  | ok payload =>
    refine ⟨(s.node.peers.members.filter fun id => some id != l.source).length + 1, ?_⟩
    simp only [run_cons, step, announce, hactive, hl, hencode]
    rw [run_push c rfl]
    rfl

/-- A descriptor that is learned and at once announced is broadcast. -/
theorem run_adopt (c : Incoming) (store : Store) (l : Learned) (hactive : s.active = none) :
    ∃ pushes : Nat,
      (run c (s.adopt (some store) l)
          (.announce s.owed.length :: List.replicate pushes .push)).node =
        { s.node with
          store
          peers := (s.node.peers.broadcast (.fileDef l.descriptor) l.source).2 } := by
  have howed : (s.adopt (some store) l).owed[s.owed.length]? = some l := List.getElem?_concat_length
  obtain ⟨pushes, hrun⟩ := run_broadcast c (s := s.adopt (some store) l) hactive howed
  refine ⟨pushes, ?_⟩
  rw [hrun]
  rfl

/-- A file that is shared, and nothing comes between. -/
theorem run_share (c : Incoming) {disk : Disk} {path : String} {n : Node}
    (hactive : s.active = none) (h : s.node.share disk path = .ok (d, n)) : ∃ pushes : Nat,
      (run c s (.share d path :: .announce s.owed.length :: List.replicate pushes .push)).node =
        n := by
  obtain ⟨name, store, -, hshare, rfl⟩ := Node.exists_of_share h
  obtain ⟨id, -, hstore⟩ := Store.exists_openToRead_of_share hshare
  obtain ⟨pushes, hrun⟩ := run_adopt c store ⟨d, none⟩ hactive
  refine ⟨pushes, ?_⟩
  rw [run_cons, step, hstore]
  exact hrun

/-- A descriptor that is heard of, and nothing comes between. -/
theorem run_hear (c : Incoming) (network : Network) (disk : Disk) (d : Descriptor)
    (source : PeerId) (hactive : s.active = none) : ∃ pushes : Nat,
      (run c s (.hear d source :: .announce s.owed.length :: List.replicate pushes .push)).node =
        (Node.dispatch network disk s.node source (.fileDef d)).1 := by
  simp only [Node.dispatch, Gossip.hear, run_cons c s, step]
  cases Gossip.learn s.node.store d with
  | none =>
    refine ⟨0, ?_⟩
    have howed : s.owed[s.owed.length]? = none := List.getElem?_eq_none (Nat.le_refl _)
    simp only [List.replicate_zero, adopt, run_cons, step, announce_of_none howed]
    rfl
  | some store => exact run_adopt c store ⟨d, some source⟩ hactive

/-- Once sending failed no more of the catalog is sent. -/
theorem run_greet_of_broken (c : Incoming) (h : s.stage = .broken) (n : Nat) :
    run c s (List.replicate n .greet) = s := by
  induction n with
  | zero => rfl
  | succ n ih =>
    rw [List.replicate_succ, run_cons, step, greet_eq_self (by simp [h]), ih]

/-- Sending the rest of the catalog goes on until sending fails. -/
theorem run_sendAll (c : Incoming) {rest : List Descriptor} (h : s.stage = .told rest)
    (sent : Nat) : run c s (List.replicate rest.length .greet) =
      match Gossip.sendAll s.joiner rest sent s.node.peers with
      | (.ok _, peers) => { s.withPeers peers with stage := .told [] }
      | (.error _, peers) =>
        { s.withPeers peers with stage := .broken, lost := s.lost ++ [s.joiner] } := by
  induction rest generalizing s sent with
  | nil =>
    simp only [Gossip.sendAll, List.length_nil, List.replicate_zero]
    rw [← h]
    rfl
  | cons d rest ih =>
    simp only [List.length_cons, List.replicate_succ, run_cons, step, greet, h, Gossip.sendAll]
    cases hsend : s.node.peers.send s.joiner (.fileDef d) with
    | mk result peers =>
      cases result with
      | ok => exact ih (s := { s.withPeers peers with stage := .told rest }) rfl (sent + 1)
      | error cause =>
        cases cause with
        | protocol cause => exact ih (s := { s.withPeers peers with stage := .told rest }) rfl sent
        | closed => exact run_greet_of_broken c rfl rest.length
        | transport cause => exact run_greet_of_broken c rfl rest.length

/-- A connection that is told the catalog, and nothing comes between, is greeted. -/
theorem run_greet (c : Incoming) (hstage : s.stage = .joined) (hactive : s.active = none) :
    ∃ (greets : Nat) (lost : List PeerId),
      run c s (.list :: List.replicate greets .greet ++ [.leave]) =
        { s with node := s.node.greet s.joiner, stage := .told [], lost } := by
  have hlist : s.list = { s with stage := .told s.node.store.descriptors } := by
    simp only [list, hstage]
  have hstage' : s.list.stage = .told s.node.store.descriptors := by rw [hlist]
  have hsend := run_sendAll c hstage' 0
  refine ⟨s.node.store.descriptors.length, ?_⟩
  rw [run_append, run_cons c s, step, hsend, hlist, Node.greet, Gossip.sendCatalog]
  cases Gossip.sendAll s.joiner s.node.store.descriptors 0 s.node.peers with
  | mk result peers =>
    cases result with
    | ok sent => exact ⟨s.lost, rfl⟩
    | error cause =>
      refine ⟨s.lost ++ [s.joiner], ?_⟩
      simp only [run_cons, step, leave, withPeers, hactive]
      rfl

end Joining

end FileMesh
