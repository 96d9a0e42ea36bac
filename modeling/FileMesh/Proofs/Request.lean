import FileMesh.Proofs.Delivery
import FileMesh.Proofs.Frames
import FileMesh.Proofs.Sharing

/-!
# Requests to a holder

A node that has a chunk answers a request for it: the return endpoint gets one frame with the bytes
of the chunk and nothing else, no peer gets anything, and the node still has its file afterwards.
-/

namespace FileMesh

/-- A connection to the endpoint can be made and takes whatever is written to it. -/
def Network.Reaches (network : Network) (target : Endpoint) : Prop :=
  ∃ dialed, network.dial target.toSocketAddress = .ok dialed ∧ dialed.sink.Willing ∧
    dialed.sink.taken = []

namespace Relay

variable {network : Network} {target : Endpoint} {disk : Disk} {s : Store} {d : Descriptor}
  {c : Bytes} {i : ChunkIndex} {r : ChunkRequest}

/-- A message that is sent alone is the only one on its connection. -/
theorem sendAlone_of_reaches (h : network.Reaches target) {m : Message} {payload : Bytes}
    (he : m.encode = .ok payload) : ∃ connection, sendAlone network target m = some connection ∧
      connection.taken = FrameHeader.frame m.type payload := by
  obtain ⟨dialed, hdial, hwilling, hempty⟩ := h
  have hsend : sendAlone network target m = some { dialed.sink with
      taken := dialed.sink.taken ++ FrameHeader.frame m.type payload }.shutdown := by
    rw [sendAlone_of_dial hdial, hwilling.sendMessage he]
  refine ⟨_, hsend, ?_⟩
  rw [Sink.taken_shutdown, hempty, List.nil_append]

/-- The chunk that a holder of the content sends for a request. -/
def reply (d : Descriptor) (c : Bytes) (i : ChunkIndex) (r : ChunkRequest) : ChunkData where
  hash := r.hash
  chunkIndex := r.chunkIndex
  declaredSize := UInt32.ofNat (d.chunkOf c i).length
  data := d.chunkOf c i

theorem carries_reply (hi : r.chunkIndex.toNat = i.val) (hlt : (d.chunkOf c i).length < 2 ^ 32) :
    d.Carries c i (reply d c i r) where
  index := hi
  declared := by rw [reply, UInt32.toNat_ofNat', Nat.mod_eq_of_lt hlt]
  data := rfl

theorem delivery?_of_lt (hlt : (d.chunkOf c i).length < 2 ^ 32) :
    delivery? r (d.chunkOf c i) = some (.fileData (reply d c i r)) := by
  have hle : ¬ largestDelivery < (d.chunkOf c i).length := by
    rw [largestDelivery]
    omega
  rw [delivery?, if_neg hle]
  rfl

/-- A request for a chunk of a file that is held is answered with it, and the file is still held. -/
theorem request_of_holds (h : s.Holds disk d c) (hr : r.hash = d.hash)
    (hi : r.chunkIndex.toNat = i.val) (hm : d.Matches c i) (hlt : (d.chunkOf c i).length < 2 ^ 32)
    (hn : network.Reaches r.returnEndpoint) (peers : PeerSet) (source : PeerId) :
    ∃ connection disk' s',
      request network disk s peers r source = (.delivered connection, disk', s', peers) ∧
      connection.taken =
        FrameHeader.frame .fileData (Message.encodeData (reply d c i r)) ∧
      s'.Holds disk' d c := by
  obtain ⟨hvalid, e, id, hlookup, rfl, hbacked, rfl⟩ := h
  obtain ⟨disk', hread, hopened, hsame⟩ := hbacked.readChunk i
  obtain ⟨connection, hsend, htaken⟩ :=
    sendAlone_of_reaches hn (m := .fileData (reply e.descriptor (disk.content id) i r)) rfl
  have hholds : holds s disk r = some e := by
    rw [holds, hr, hlookup, Option.filter_some, if_pos]
    rw [hi, hbacked.verifyChunk_iff]
    exact hm
  have hanswer : answer network disk e r = (.delivered connection, e.opened id, disk') := by
    rw [answer_of_ok (hi ▸ hread), delivery?_of_lt hlt, Option.bind_some, hsend]
  refine ⟨connection, disk', s.modify r.hash fun _ => e.opened id, ?_, htaken, ?_⟩
  · rw [request_of_some hholds, hanswer]
  · rw [hr]
    exact ⟨hvalid.modify _ _, e.opened id, id, hvalid.lookup_replace hlookup, rfl, hopened, hsame⟩

end Relay

end FileMesh
