import FileMesh.Network
import FileMesh.Peer
import FileMesh.Store

/-!
# Requests and deliveries

A request for a chunk is answered by whoever has the chunk and can prove it: the chunk goes
straight to the return endpoint, never over the connection of the request. Everyone else passes the
request on as it is. A chunk that is delivered is written if it is missing and has the right size.

Requests are handled in any monad in which addresses can be dialed; in a `Network` dialing just has
an answer.
-/

namespace FileMesh.Relay

/-- What came of a request: the chunk was sent over a connection of its own, or it is here but could
not be sent, or the request was passed on. -/
inductive RequestOutcome where
  | delivered (connection : Sink)
  | deliveryFailed
  | relayed (report : Report)

/-- What came of a delivery. -/
inductive DeliveryOutcome where
  | stored
  | alreadyVerified
  | unknownFile
  | sizeMismatch (expected : Nat) (declared : UInt32)
  | failed
deriving DecidableEq, Repr

/-! ## Requests -/

/-- The largest chunk that can be delivered: its size is declared in 32 bits. -/
def largestDelivery : Nat := 0xFFFFFFFF

/-- The message that delivers a chunk; a chunk that is too large has none. -/
def delivery? (request : ChunkRequest) (data : Bytes) : Option Message :=
  if largestDelivery < data.length then none
  else some (.fileData {
    hash := request.hash
    chunkIndex := request.chunkIndex
    declaredSize := UInt32.ofNat data.length
    data })

/-- Whether the store has a chunk that matches its declared hash. -/
def holds (store : Store) (disk : Disk) (request : ChunkRequest) : Option Entry :=
  (store.lookup request.hash).filter fun e => e.verifyChunk disk request.chunkIndex.toNat

section

variable {m : Type → Type} [Monad m] (dial : SocketAddress → m (Except IoError Dialed))

/-- Sends a message over a connection of its own and closes it. -/
def sendAloneBy (target : Endpoint) (message : Message) : m (Option Sink) := do
  match ← dial target.toSocketAddress with
  | .error _ => return none
  | .ok dialed =>
    match dialed.sink.sendMessage message with
    | (.ok (), sink) => return some sink.shutdown
    | (.error _, _) => return none

/-- Reads a chunk and sends it to the return endpoint. -/
def answerBy (disk : Disk) (e : Entry) (request : ChunkRequest) :
    m (RequestOutcome × Entry × Disk) :=
  match e.readChunk disk request.chunkIndex.toNat with
  | (.error _, e, disk) => return (.deliveryFailed, e, disk)
  | (.ok data, e, disk) =>
    match delivery? request data with
    | none => return (.deliveryFailed, e, disk)
    | some message => do
      match ← sendAloneBy dial request.returnEndpoint message with
      | some connection => return (.delivered connection, e, disk)
      | none => return (.deliveryFailed, e, disk)

/-- Handles a request from a peer. -/
def requestBy (disk : Disk) (store : Store) (peers : PeerSet) (r : ChunkRequest) (source : PeerId) :
    m (RequestOutcome × Disk × Store × PeerSet) :=
  match holds store disk r with
  | some e => do
    let (outcome, e, disk) ← answerBy dial disk e r
    return (outcome, disk, store.modify r.hash fun _ => e, peers)
  | none =>
    let (report, peers) := peers.broadcast (.requestFileData r) (some source)
    return (.relayed report, disk, store, peers)

end

/-- Sends a message alone in a network. -/
def sendAlone (network : Network) (target : Endpoint) (message : Message) : Option Sink :=
  sendAloneBy (m := Id) network.dial target message

/-- Reads and sends a chunk in a network. -/
def answer (network : Network) (disk : Disk) (e : Entry) (request : ChunkRequest) :
    RequestOutcome × Entry × Disk := answerBy (m := Id) network.dial disk e request

/-- Handles a request in a network. -/
def request (network : Network) (disk : Disk) (store : Store) (peers : PeerSet)
    (r : ChunkRequest) (source : PeerId) : RequestOutcome × Disk × Store × PeerSet :=
  requestBy (m := Id) network.dial disk store peers r source

section

variable {network : Network} {disk disk' : Disk} {e e' : Entry} {r : ChunkRequest}

theorem sendAlone_of_dial_error {target : Endpoint} {cause : IoError}
    (h : network.dial target.toSocketAddress = .error cause) (message : Message) :
    sendAlone network target message = none := by
  simp only [sendAlone, sendAloneBy, bind, h]
  rfl

theorem sendAlone_of_dial {target : Endpoint} {dialed : Dialed}
    (h : network.dial target.toSocketAddress = .ok dialed) (message : Message) :
    sendAlone network target message = match dialed.sink.sendMessage message with
      | (.ok (), sink) => some sink.shutdown
      | (.error _, _) => none := by
  simp only [sendAlone, sendAloneBy, bind, h]
  rfl

theorem answer_of_error {cause : StoreError}
    (h : e.readChunk disk r.chunkIndex.toNat = (.error cause, e', disk')) :
    answer network disk e r = (.deliveryFailed, e', disk') := by
  simp only [answer, answerBy, h]
  rfl

/-- A chunk that is read is delivered if it can be packed and sent. -/
theorem answer_of_ok {data : Bytes}
    (h : e.readChunk disk r.chunkIndex.toNat = (.ok data, e', disk')) :
    answer network disk e r =
      (match (delivery? r data).bind (sendAlone network r.returnEndpoint) with
        | some connection => .delivered connection
        | none => .deliveryFailed, e', disk') := by
  simp only [answer, answerBy, h]
  cases delivery? r data with
  | none => rfl
  | some message =>
    simp only [bind, Option.bind_some, sendAlone]
    cases sendAloneBy (m := Id) network.dial r.returnEndpoint message <;> rfl

/-- Answering leaves what reading the chunk leaves. -/
theorem answer_snd (network : Network) (disk : Disk) (e : Entry) (r : ChunkRequest) :
    (answer network disk e r).2 = (e.readChunk disk r.chunkIndex.toNat).2 := by
  rcases hread : e.readChunk disk r.chunkIndex.toNat with ⟨_ | data, e', disk'⟩
  · rw [answer_of_error hread]
  · rw [answer_of_ok hread]

theorem request_of_some {store : Store} (h : holds store disk r = some e) (peers : PeerSet)
    (source : PeerId) : request network disk store peers r source =
      ((answer network disk e r).1, (answer network disk e r).2.2,
        store.modify r.hash fun _ => (answer network disk e r).2.1, peers) := by
  simp only [request, requestBy, h]
  rfl

theorem request_of_none {store : Store} (h : holds store disk r = none) (peers : PeerSet)
    (source : PeerId) : request network disk store peers r source =
      (.relayed (peers.broadcast (.requestFileData r) (some source)).1, disk, store,
        (peers.broadcast (.requestFileData r) (some source)).2) := by
  simp only [request, requestBy, h]
  rfl

end

/-! ## Deliveries -/

/-- Writes a chunk unless it is there already or has the wrong size. -/
def accept (disk : Disk) (e : Entry) (chunk : ChunkData) : DeliveryOutcome × Entry × Disk :=
  let index := chunk.chunkIndex.toNat
  if e.verifyChunk disk index then (.alreadyVerified, e, disk)
  else match e.openChunk disk index with
    | (.error _, e, disk) => (.failed, e, disk)
    | (.ok range, e, disk) =>
      let expected := range.length.toNat
      if expected ≠ chunk.declaredSize.toNat ∨ chunk.data.length ≠ expected then
        (.sizeMismatch expected chunk.declaredSize, e, disk)
      else (.stored, e, e.put disk range 0 chunk.data)

/-- Handles a chunk from a peer. -/
def deliver (disk : Disk) (store : Store) (chunk : ChunkData) : DeliveryOutcome × Disk × Store :=
  match store.lookup chunk.hash with
  | none => (.unknownFile, disk, store)
  | some e =>
    let (outcome, e, disk) := accept disk e chunk
    (outcome, disk, store.modify chunk.hash fun _ => e)

end FileMesh.Relay
