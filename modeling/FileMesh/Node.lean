import FileMesh.Config
import FileMesh.Download
import FileMesh.Gossip
import FileMesh.Notice

/-!
# Nodes

A node has its settings, its store and its peers, and the connections and downloads it is busy with.
What it tells the operator is kept. The disk and the network are not part of it: several nodes can
share them.
-/

namespace FileMesh

/-- Where the reading of a connection stands. The flag says that it was told to stop. -/
inductive ReaderStage where
  | spawned
  | reading (stopping : Bool)
  | finished
deriving DecidableEq, Repr

/-- The reading of one connection. -/
structure ConnectionReader where
  peer : PeerId
  stage : ReaderStage
deriving DecidableEq, Repr

/-- A node. The notices are what the operator was told, the oldest first; `learnedIp` is the first
own address that a peer reported, and `interfaceIp` the first usable one that a connection had.
Downloads stay listed when they have ended, and `registered` has the files of which another one
would be refused. -/
structure Node where
  config : Config
  store : Store
  peers : PeerSet
  notices : List Notice
  boundAddress : Option SocketAddress
  learnedIp : Option Ipv4
  interfaceIp : Option Ipv4
  readers : List ConnectionReader
  registered : List ContentHash
  downloads : List Download

namespace Node

/-- A node that has done nothing yet. -/
def new (config : Config) : Node where
  config
  store := .empty config.downloadDir
  peers := .empty
  notices := []
  boundAddress := none
  learnedIp := none
  interfaceIp := none
  readers := []
  registered := []
  downloads := []

instance : Inhabited Node := ⟨new .standard⟩

def notify (n : Node) (notice : Notice) : Node := { n with notices := n.notices ++ [notice] }

/-- Whether the operator was told this text. -/
def hasShown (n : Node) (text : String) : Bool := n.notices.any (·.text == text)

/-- The descriptors of everything that is known, in slot order. -/
def catalog (n : Node) : List Descriptor := n.store.descriptors

/-! ## Own addresses -/

/-- The return address: the fixed one, or else the first that a peer reported, the listener's
unless it names no interface, the first usable one of a connection, the host's own. -/
def returnIp (n : Node) : Ipv4 :=
  (n.config.advertiseIp.or <| n.learnedIp.or <|
    (n.boundAddress.bind SocketAddress.reachableIp?).or n.interfaceIp).getD .loopback

/-- Remembers the address of a connection's near end. Only the first usable one counts. -/
def noteInterface (n : Node) (ip : Ipv4) : Node :=
  if ip.isLoopback ∨ ip.isUnspecified then n
  else { n with interfaceIp := n.interfaceIp.or (some ip) }

/-- Remembers an own address that a peer reported. Only the first one counts. -/
def learnAddress (n : Node) (ip : Ipv4) : Node := { n with learnedIp := n.learnedIp.or (some ip) }

/-- Starts listening for peers and gives the address. The first listener's address is remembered. -/
def bind (network : Network) (n : Node) : Except NetworkError (SocketAddress × Node) := do
  let address ← network.openListener n.config.listenAddress
  .ok (address, { n with boundAddress := n.boundAddress.or (some address) })

/-! ## Sharing -/

/-- Why a file is not shared: the path ends in no name, or the store refuses the file. -/
inductive ShareError where
  | noFileName (path : String)
  | failed (path : String) (cause : StoreError)
deriving DecidableEq, Repr

def ShareError.message : ShareError → String
  | noFileName path => path ++ " has no usable file name"
  | failed path cause => "failed to share " ++ path ++ ": " ++ cause.message

/-- Adds the file at a path to the store, under its last name. -/
def scan (disk : Disk) (n : Node) (path : String) : Except ShareError (Descriptor × Node) :=
  match Path.fileName? path with
  | none => .error (.noFileName path)
  | some name =>
    match n.store.share disk path name with
    | .error cause => .error (.failed path cause)
    | .ok (d, store) => .ok (d, { n with store })

def announce (n : Node) (d : Descriptor) : Node := { n with peers := (Gossip.announce n.peers d).2 }

/-- Adds the file at a path to the store and announces it. -/
def share (disk : Disk) (n : Node) (path : String) : Except ShareError (Descriptor × Node) := do
  let (d, n) ← scan disk n path
  .ok (d, n.announce d)

end Node

end FileMesh
