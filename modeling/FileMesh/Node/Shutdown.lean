import FileMesh.Node.Connection
import FileMesh.Node.Download

/-!
# Stopping a node

A node stops in steps: a signal to everything that listens for it, then the peers are removed one by
one, then every entry is saved. A download or a connection that has not begun does not listen yet.
-/

namespace FileMesh.Node

/-- The stage of a reader after a stop signal. -/
def signalReader (r : ConnectionReader) : ConnectionReader :=
  match r.stage with
  | .reading _ => { r with stage := .reading true }
  | _ => r

/-- Tells everything that listens to stop. -/
def signal (n : Node) : Node :=
  { n with
    downloads := n.downloads.map fun d => { d with stage := d.stage.signal }
    readers := n.readers.map signalReader }

def dropPeers (n : Node) (ids : List PeerId) : Node := ids.foldl drop n

def saveAll (disk : Disk) (n : Node) : Node × Disk :=
  let (store, disk) := n.store.saveAll disk
  ({ n with store }, disk)

/-- Ends the reading of a connection that was told to stop or was closed. -/
def stopReader (n : Node) (id : PeerId) : Node :=
  if n.readers.any fun r => r.peer = id && (r.stage == .reading true ||
      (r.stage == .reading false && n.isClosed id)) then n.finishReader id
  else n

/-- Lets everything end that was told to stop. -/
def stopAll (n : Node) : Node :=
  let n := (List.range n.downloads.length).foldl stopDownload n
  (n.readers.map ConnectionReader.peer).foldl stopReader n

/-- Stops the node: the signal, the peers of that moment, the files. -/
def shutdown (disk : Disk) (n : Node) : Node × Disk :=
  let n := n.signal
  let (n, disk) := (n.dropPeers n.peers.members).saveAll disk
  (n.stopAll, disk)

end FileMesh.Node
