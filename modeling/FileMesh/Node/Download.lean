import FileMesh.Node

/-!
# Downloads of a node

An operator asks for a file by name. If the file is known, incomplete, small enough to be delivered
and not being downloaded, a download is registered and started. Its stages are separate steps, so
that other things can happen between them.
-/

namespace FileMesh.Node

inductive Refusal where
  | notFound
  | alreadyComplete
  | tooLarge
  | inProgress
deriving DecidableEq, Repr

def Refusal.text : Refusal → String
  | notFound => "File not found in network"
  | alreadyComplete => "File already downloaded!"
  | tooLarge => "File too large to download"
  | inProgress => "Download already in progress"

/-! ## Starting -/

/-- The entry to download for a name, before looking whether it is being downloaded. -/
def candidate (disk : Disk) (n : Node) (name : String) : Except Refusal Entry :=
  match n.store.findByName name with
  | none => .error .notFound
  | some e =>
    if (e.verify disk).isComplete then .error .alreadyComplete
    else if n.config.maxFrameBytes < Download.deliveryLength e.descriptor then .error .tooLarge
    else .ok e

/-- Registers and starts a download. The answer is its number. -/
def register (n : Node) (hash : ContentHash) : Except Refusal (Nat × Node) :=
  if n.registered.contains hash then .error .inProgress
  else
    let n := n.notify (.system "Starting download...")
    .ok (n.downloads.length, { n with
      registered := n.registered ++ [hash]
      downloads := n.downloads ++ [⟨hash, .spawned⟩] })

/-- Tells the operator why no download is started. -/
def refuse (n : Node) (r : Refusal) : Node := n.notify (.system r.text)

/-- Starts a download of the file with a name, or tells the operator why not. -/
def requestDownload (disk : Disk) (n : Node) (name : String) : Except Refusal Nat × Node :=
  match n.candidate disk name >>= fun e => n.register e.descriptor.hash with
  | .ok (i, n) => (.ok i, n)
  | .error r => (.error r, n.refuse r)

/-! ## Stages -/

def setStage (n : Node) (i : Nat) (stage : DownloadStage) : Node :=
  { n with downloads := n.downloads.modify i fun d => { d with stage } }

/-- Ends a download; another one of the same file can be registered then. -/
def finishDownload (n : Node) (i : Nat) (d : Download) (outcome : DownloadOutcome) : Node :=
  { n.setStage i (.finished outcome) with registered := n.registered.filter (· != d.hash) }

/-- Begins a download: opens its return endpoint. -/
def beginDownload (network : Network) (n : Node) (i : Nat) : Node :=
  match n.downloads[i]? with
  | some ⟨hash, .spawned⟩ =>
    match network.openListener (n.config.listenAddress.withPort 0) with
    | .error cause => n.finishDownload i ⟨hash, .spawned⟩ (.failed cause)
    | .ok address => n.setStage i (.verifying ⟨n.returnIp, address.port⟩ false)
  | _ => n

/-- Asks every peer for every missing chunk. -/
def requestMissing (n : Node) (hash : ContentHash) (returnEndpoint : Endpoint)
    (v : VerifiedChunks) : Node :=
  let requests := Download.requests hash returnEndpoint n.config.requestTtl v
  let ask (peers : PeerSet) (r : ChunkRequest) := (peers.broadcast (.requestFileData r) none).2
  { n with peers := requests.foldl ask n.peers }

/-- Saves a complete file and tells the operator. If it cannot be saved the download ends without a
word to the operator. -/
def completeDownload (disk : Disk) (n : Node) (i : Nat) (d : Download) (e : Entry) : Node × Disk :=
  let (result, saved, disk) := e.save disk
  let n := { n with store := n.store.modify d.hash fun _ => saved }
  match result with
  | .error cause => (n.finishDownload i d (.unsaved e.descriptor.name cause), disk)
  | .ok () =>
    let n := n.notify (.system ("File '" ++ e.descriptor.name ++ "' downloaded!"))
    (n.finishDownload i d .complete, disk)

theorem completeDownload_of_ok {disk : Disk} {e : Entry} (h : (e.save disk).1 = .ok ()) (n : Node)
    (i : Nat) (d : Download) : n.completeDownload disk i d e =
      (({ n with store := n.store.modify d.hash fun _ => (e.save disk).2.1 }.notify
        (.system ("File '" ++ e.descriptor.name ++ "' downloaded!"))).finishDownload i d .complete,
        (e.save disk).2.2) := by
  simp only [completeDownload, h]

theorem completeDownload_of_error {disk : Disk} {e : Entry} {cause : StoreError}
    (h : (e.save disk).1 = .error cause) (n : Node) (i : Nat) (d : Download) :
    n.completeDownload disk i d e =
      ({ n with store := n.store.modify d.hash fun _ => (e.save disk).2.1 }.finishDownload i d
        (.unsaved e.descriptor.name cause), (e.save disk).2.2) := by
  simp only [completeDownload, h]

/-- Runs one round of a download: if chunks are missing it asks for them and waits, otherwise it
ends. -/
def runRound (disk : Disk) (n : Node) (i : Nat) : Node × Disk :=
  match n.downloads[i]? with
  | some ⟨hash, .verifying returnEndpoint stopping⟩ =>
    match n.store.lookup hash with
    | none => (n, disk)
    | some e =>
      let v := e.verify disk
      if v.isComplete then n.completeDownload disk i ⟨hash, .verifying returnEndpoint stopping⟩ e
      else
        let n := n.requestMissing hash returnEndpoint v
        (n.setStage i (.waiting returnEndpoint stopping), disk)
  | _ => (n, disk)

/-- Ends the waiting of a download because the time is over. -/
def wakeDownload (n : Node) (i : Nat) : Node :=
  match n.downloads[i]? with
  | some ⟨_, .waiting returnEndpoint stopping⟩ => n.setStage i (.verifying returnEndpoint stopping)
  | _ => n

/-- Ends a download that was told to stop and waits. -/
def stopDownload (n : Node) (i : Nat) : Node :=
  match n.downloads[i]? with
  | some ⟨hash, .waiting returnEndpoint true⟩ =>
    n.finishDownload i ⟨hash, .waiting returnEndpoint true⟩ .interrupted
  | _ => n

/-- Brings a download to where it waits or has ended: it stops if it was told to; otherwise it
begins if it has not, and one round is run. -/
def advance (network : Network) (disk : Disk) (n : Node) (i : Nat) : Node × Disk :=
  let (n, disk) :=
    (((n.stopDownload i).beginDownload network i).wakeDownload i).runRound disk i
  (n.stopDownload i, disk)

/-- Brings every download to where it waits or has ended. -/
def settle (network : Network) (disk : Disk) (n : Node) : Node × Disk :=
  (List.range n.downloads.length).foldl (fun (n, disk) i => n.advance network disk i) (n, disk)

end FileMesh.Node
