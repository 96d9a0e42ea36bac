import FileMesh.Node
import FileMesh.Relay

/-!
# Connections of a node

A connection, whoever made it, becomes a peer: it is a member first, then it is told the catalog,
and its messages are handled one after the other until it ends. A message that is malformed is
passed over. The peer leaves when its connection ends.
-/

namespace FileMesh.Node

/-- Makes a connection a peer. Its reading is still to begin, and it is still to be told the
catalog. -/
def attach (n : Node) (remote near : SocketAddress) (sink : Sink) : PeerId × Node :=
  let n := match near.reachableIp? with
    | some ip => n.noteInterface ip
    | none => n
  let (id, peers) := n.peers.connect (.connected remote sink)
  (id, { n with peers := peers.add id, readers := n.readers ++ [⟨id, .spawned⟩] })

/-- Removes a peer and closes it. -/
def drop (n : Node) (id : PeerId) : Node := { n with peers := (n.peers.remove id).2 }

/-- Tells a new peer the catalog. A peer that cannot be told leaves. -/
def greet (n : Node) (id : PeerId) : Node :=
  match Gossip.sendCatalog n.store n.peers id with
  | (.ok _, peers) => { n with peers }
  | (.error _, peers) => ({ n with peers } : Node).drop id

/-! ## Messages -/

/-- Answers a peer that asks for its address. A peer without an IPv4 address gets no answer. -/
def reportAddress (n : Node) (source : PeerId) : Node :=
  match (n.peers.peer? source).bind fun p => p.address.toEndpoint? with
  | some observed => { n with peers := (n.peers.send source (.addrSelf observed)).2 }
  | none => n

/-- Handles a message from a peer. -/
def dispatch (network : Network) (disk : Disk) (n : Node) (source : PeerId) :
    Message → Node × Disk
  | .fileDef d =>
    let (_, store, peers) := Gossip.hear n.store n.peers d source
    ({ n with store, peers }, disk)
  | .requestFileData r =>
    let (_, disk, store, peers) := Relay.request network disk n.store n.peers r source
    ({ n with store, peers }, disk)
  | .fileData chunk =>
    let (_, disk, store) := Relay.deliver disk n.store chunk
    ({ n with store }, disk)
  | .requestAddrSelf => (n.reportAddress source, disk)
  | .addrSelf observed => (n.learnAddress observed.ip, disk)

/-! ## Reading -/

def setReader (n : Node) (id : PeerId) (stage : ReaderStage) : Node :=
  { n with readers := n.readers.map fun r => if r.peer = id then { r with stage } else r }

def finishReader (n : Node) (id : PeerId) : Node := (n.drop id).setReader id .finished

/-- Whether a connection was closed from this end. -/
def isClosed (n : Node) (id : PeerId) : Bool := ((n.peers.peer? id).map Peer.isClosed).getD true

/-- Begins the reading of a connection; one that was closed before is not read. -/
def beginReader (n : Node) (id : PeerId) : Node :=
  if n.isClosed id then n.finishReader id else n.setReader id (.reading false)

/-- Handles what arrives on a connection until it ends. -/
def handleAll (network : Network) (disk : Disk) (n : Node) (id : PeerId) (r : FrameReader) :
    Node × Disk :=
  match h : r.next n.config.maxFrameBytes.toNat with
  | (.ok message, rest) =>
    have : rest.unread.length < r.unread.length :=
      FrameReader.length_unread_next h (fun _ he => nomatch he)
    let (n, disk) := dispatch network disk n id message
    handleAll network disk n id rest
  | (.error e, rest) =>
    if he : e.isFatal then (n, disk)
    else
      have : rest.unread.length < r.unread.length :=
        FrameReader.length_unread_next h (fun _ hx => by cases hx; simpa using he)
      handleAll network disk n id rest
termination_by r.unread.length

/-- Reads a connection from beginning to end. -/
def runConnection (network : Network) (disk : Disk) (n : Node) (id : PeerId) (r : FrameReader) :
    Node × Disk :=
  if n.isClosed id then (n.finishReader id, disk)
  else
    let (n, disk) := handleAll network disk (n.beginReader id) id r
    (n.finishReader id, disk)

/-! ## Connecting -/

/-- Why there is no connection: the target has no address or does not answer, or the connection
broke at once. -/
inductive ConnectError where
  | network (cause : NetworkError)
  | lost (address : SocketAddress) (cause : FrameError)
deriving DecidableEq, Repr

def ConnectError.message : ConnectError → String
  | network cause => cause.message
  | lost address cause =>
    "lost " ++ address.render ++ " right after connecting: " ++ cause.trace

/-- Connects to an address and asks how this end looks from there. -/
def connect (network : Network) (n : Node) (address : SocketAddress) :
    Except ConnectError PeerId × Node :=
  match network.connect address with
  | .error cause => (.error (.network cause), n)
  | .ok dialed =>
    let (id, n) := n.attach address dialed.localAddress dialed.sink
    match n.peers.send id .requestAddrSelf with
    | (.ok (), peers) => (.ok id, { n with peers })
    | (.error cause, peers) =>
      (.error (.lost address cause), ({ n with peers } : Node).drop id)

def connectTo (network : Network) (n : Node) (target : String) :
    Except ConnectError PeerId × Node :=
  match Address.resolve target with
  | .error cause => (.error (.network (.unresolved cause)), n)
  | .ok endpoint => n.connect network endpoint.toSocketAddress

end FileMesh.Node
