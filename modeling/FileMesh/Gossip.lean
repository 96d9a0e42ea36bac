import FileMesh.Peer
import FileMesh.Store

/-!
# Gossip

How descriptors spread. A file that is shared is announced to every peer, a new peer is told
everything that is known, and a descriptor from a peer is passed on to all others the first time it
is heard of. It never goes straight back to where it came from.
-/

namespace FileMesh.Gossip

def announce (peers : PeerSet) (d : Descriptor) : Report × PeerSet :=
  peers.broadcast (.fileDef d) none

/-- Sends descriptors to a peer until sending fails, and counts them. A descriptor that cannot be
encoded is left out. -/
def sendAll (peer : PeerId) : List Descriptor → Nat → PeerSet → Except FrameError Nat × PeerSet
  | [], sent, peers => (.ok sent, peers)
  | d :: rest, sent, peers =>
    match peers.send peer (.fileDef d) with
    | (.ok (), peers) => sendAll peer rest (sent + 1) peers
    | (.error (.protocol _), peers) => sendAll peer rest sent peers
    | (.error e, peers) => (.error e, peers)

/-- Sends everything that is known to a peer and counts it. -/
def sendCatalog (store : Store) (peers : PeerSet) (peer : PeerId) :
    Except FrameError Nat × PeerSet :=
  sendAll peer store.descriptors 0 peers

/-- Passes a descriptor on to everyone but the peer it came from. -/
def passOn (peers : PeerSet) (d : Descriptor) (source : PeerId) : Report × PeerSet :=
  peers.broadcast (.fileDef d) (some source)

/-- Adds a descriptor from a peer. If it is new it is to be passed on; otherwise it is dropped. -/
def learn (store : Store) (d : Descriptor) : Option Store := (store.add d).toOption

/-- Handles a descriptor from a peer; no report if it is dropped. -/
def hear (store : Store) (peers : PeerSet) (d : Descriptor) (source : PeerId) :
    Option Report × Store × PeerSet :=
  match learn store d with
  | none => (none, store, peers)
  | some store =>
    let (report, peers) := passOn peers d source
    (some report, store, peers)

end FileMesh.Gossip
