import FileMesh.Proofs.Admission
import FileMesh.Proofs.Peer.FanOut
import FileMesh.Proofs.Serving

/-!
# Answered or passed on

A request for a chunk is answered by a node that has the chunk, over one connection that it makes
for the purpose, or it is passed on to the members. What is sent is the chunk that was checked, even
though it is checked at its path and read from a mapping, which may cut or extend the file. What is
passed on is what arrived, byte by byte. A node never does both.
-/

namespace FileMesh

theorem Bytes.slice_resize {b : Bytes} {start k n : Nat} (hb : k ≤ b.length - start)
    (hn : start + k ≤ n) : (b.resize n).slice start k = b.slice start k := by
  apply List.ext_getElem?
  intro i
  rw [getElem?_slice, getElem?_slice, getElem?_resize]
  by_cases hi : i < k
  · rw [if_pos hi, if_pos hi, if_pos (by omega), List.getElem?_eq_getElem (by omega),
      Option.getD_some]
  · rw [if_neg hi, if_neg hi]

/-! ## The chunk that is read -/

namespace Entry

variable {disk : Disk} {e : Entry} {i : ChunkIndex} {data : Bytes}

/-- A chunk that matches at its path is the same once the file is mapped. -/
theorem chunk?_eq_of_readChunk (hd : disk.WellFormed) (hv : e.verifyChunk disk i = true)
    (h : (e.readChunk disk i).1 = .ok data) : e.chunk? disk i = some data := by
  have hr : e.descriptor.chunkRange? i = some (e.descriptor.range i) :=
    Descriptor.chunkRange?_of_eq rfl
  cases hm : e.mapping with
  | some id =>
    rw [readChunk, openChunk, hr] at h
    simp only [openFile, hm, Except.map, view, Except.ok.injEq] at h
    rw [chunk?, hm]
    exact congrArg some h
  | none =>
    obtain ⟨path, kind, hp, ho⟩ := exists_openToRead_of_verifyChunk hm hv
    rw [readChunk, openChunk, hr] at h
    cases kind with
    | directory =>
      obtain ⟨cause, hopen⟩ := openFile_of_directory hm hp ho
      simp only [hopen, Except.map, reduceCtorEq] at h
    | file id =>
      by_cases hsize : disk.Admits e.size
      · simp only [openFile_of_file hd hm hp ho hsize, Except.map, view, opened,
          Except.ok.injEq] at h
        rw [Disk.file_setFile_of_lt (hd.bound_of_openToRead ho).lt] at h
        -- The range was read at the path, so it lies in the file and is not filled up.
        obtain ⟨b, hb, -⟩ := (verifyChunk_iff i).1 hv
        rw [chunk?, hm, hp] at hb ⊢
        simp only [Option.map_some, ho] at hb ⊢
        split at hb
        · rename_i hrange
          have hle : (e.descriptor.range i).start.toNat + (e.descriptor.range i).length.toNat ≤
              e.size := e.descriptor.range_le i
          have hmapped : ((disk.file id).setLength e.size).mapped e.size =
              (disk.content id).resize e.size := FileContent.bytes_setLength _ _
          rw [if_pos hrange, ← h, rangeOf, FileContent.range_eq_slice _ hle, hmapped,
            Bytes.slice_resize hrange.2 hle]
          rfl
        · cases hb
      · obtain ⟨cause, hopen⟩ := openFile_of_not_admits hd hm hp ho hsize
        simp only [hopen, Except.map, reduceCtorEq] at h

/-- What is read of a chunk that was checked has the declared hash. -/
theorem hash_of_readChunk (hd : disk.WellFormed) (hv : e.verifyChunk disk i = true)
    (h : (e.readChunk disk i).1 = .ok data) :
    .ofContent data = e.descriptor.chunkHashes.get i := by
  obtain ⟨b, hb, hhash⟩ := (verifyChunk_iff i).1 hv
  rw [chunk?_eq_of_readChunk hd hv h] at hb
  cases hb
  exact hhash

end Entry

/-! ## A connection with one message -/

/-- The connection was closed, and whoever has room for the message reads it there, then that the
connection is closed, and nothing else. -/
def Sink.Holds (connection : Sink) (m : Message) : Prop :=
  connection.isShut = true ∧ connection.taken = m.frame ∧
    ∀ (reader : FrameReader) (limit : UInt64), reader.unread = connection.taken →
      reader.source.ending = .closed → m.Fits limit.toNat →
        reader.readAll limit.toNat = ([m], .closed)

theorem FrameReader.readAll_of_frame {r : FrameReader} {m : Message} {payload : Bytes}
    {limit : UInt64} (he : m.encode = .ok payload) (hback : m.readBack = .ok m)
    (hfits : payload.length ≤ limit.toNat) (h : r.unread = m.frame)
    (hending : r.source.ending = .closed) : r.readAll limit.toNat = ([m], .closed) := by
  obtain ⟨hnext, hrest⟩ := next_of_frame he hfits (h.trans (List.append_nil _).symm)
  have hclosed : (r.next limit.toNat).2.source.ending = .closed := by
    rw [next_snd, ending_receive, hending]
  have hfirst : r.next limit.toNat = (.ok m, (r.next limit.toNat).2) :=
    Prod.ext (hnext.trans hback) rfl
  generalize (r.next limit.toNat).2 = r' at hfirst hrest hclosed
  have hshort : r'.unread.length < FrameHeader.width := by
    rw [hrest]
    decide
  obtain ⟨r'', hpeek, -⟩ := peek_of_closed hshort hclosed
  have hend : r'.next limit.toNat = (.error .closed, r'') := by
    simp only [next, receive, hpeek]
  rw [readAll_of_ok hfirst, readAll_of_error hend]

/-- A connection that was made has carried nothing yet. -/
def Network.Fresh (network : Network) : Prop :=
  ∀ address dialed, network.dial address = .ok dialed → dialed.sink.taken = []

namespace Relay

variable {network : Network} {disk disk' : Disk} {s s' : Store} {peers peers' : PeerSet}
  {r : ChunkRequest} {source : PeerId} {e : Entry} {data payload : Bytes} {connection : Sink}
  {outcome : RequestOutcome}

/-- A message that was sent alone is all that its connection carried. -/
theorem taken_of_sendAlone (hfresh : network.Fresh) {target : Endpoint} {m : Message}
    (he : m.encode = .ok payload) (h : sendAlone network target m = some connection) :
    connection.isShut = true ∧ connection.taken = m.frame := by
  cases hdial : network.dial target.toSocketAddress with
  | error cause =>
    rw [sendAlone_of_dial_error hdial] at h
    cases h
  | ok dialed =>
    simp only [sendAlone_of_dial hdial, Sink.sendMessage, he] at h
    cases hwrite : dialed.sink.writeFrame m.type payload with
    | mk result sink =>
      rw [hwrite] at h
      cases result with
      | error cause => cases h
      | ok _ =>
        cases h
        refine ⟨sink.isShut_shutdown, ?_⟩
        rw [Sink.taken_shutdown, Sink.eq_push_of_writeFrame hwrite, Sink.taken_push,
          hfresh _ _ hdial, List.nil_append, Message.frame_of_encode he]

/-- The delivery of a chunk is read back. -/
theorem readBack_packed (hi : r.chunkIndex.toNat < chunkCount) (h : data.length ≤ largestDelivery) :
    (Message.fileData (packed r data)).readBack = .ok (.fileData (packed r data)) := by
  have hdecode : Message.decodeData (Message.encodeData (packed r data)) = .ok (packed r data) :=
    Message.decodeData_encode hi (toNat_declaredSize_packed r h)
  rw [Message.readBack, Message.encode, Message.type]
  simp only [bind, Except.bind, Message.decode, hdecode]
  rfl

/-- What a holder sends, if it sends something, is the chunk that it read. -/
theorem holds_of_answer (hfresh : network.Fresh) (hi : r.chunkIndex.toNat < chunkCount)
    (h : (answer network disk e r).1 = .delivered connection) :
    ∃ data, (e.readChunk disk r.chunkIndex.toNat).1 = .ok data ∧ data.length ≤ largestDelivery ∧
      connection.Holds (.fileData (packed r data)) := by
  rcases hread : e.readChunk disk r.chunkIndex.toNat with ⟨_ | data, e', disk'⟩
  · rw [answer_of_error hread] at h
    cases h
  · rw [answer_of_ok hread] at h
    cases hd : delivery? r data with
    | none => simp only [hd, Option.bind_none, reduceCtorEq] at h
    | some m =>
      obtain ⟨hle, rfl⟩ := delivery?_eq_some_iff.1 hd
      simp only [hd, Option.bind_some] at h
      cases hsend : sendAlone network r.returnEndpoint (.fileData (packed r data)) with
      | none => simp only [hsend, reduceCtorEq] at h
      | some sent =>
        simp only [hsend, RequestOutcome.delivered.injEq] at h
        obtain ⟨hshut, htaken⟩ := taken_of_sendAlone hfresh rfl hsend
        rw [h] at hshut htaken
        refine ⟨data, rfl, hle, hshut, htaken, fun reader limit hreader hending hfits => ?_⟩
        exact FrameReader.readAll_of_frame rfl (readBack_packed hi hle) (hfits _ rfl)
          (hreader.trans htaken) hending

/-! ## Dialing with a record -/

/-- Dialing that records whom it dials, in order. -/
def traced (network : Network) (address : SocketAddress) :
    StateM (List SocketAddress) (Except IoError Dialed) := do
  modify (· ++ [address])
  return network.dial address

theorem run_sendAloneBy (network : Network) (target : Endpoint) (message : Message)
    (log : List SocketAddress) : (sendAloneBy (traced network) target message).run log =
      (sendAlone network target message, log ++ [target.toSocketAddress]) := by
  have hdialing : (traced network target.toSocketAddress).run log =
      pure (network.dial target.toSocketAddress, log ++ [target.toSocketAddress]) := rfl
  simp only [sendAloneBy, StateT.run_bind, hdialing, pure_bind]
  cases hdial : network.dial target.toSocketAddress with
  | error cause =>
    rw [sendAlone_of_dial_error hdial]
    rfl
  | ok dialed =>
    simp only [sendAlone_of_dial hdial]
    rcases dialed.sink.sendMessage message with ⟨_ | _, sink⟩ <;> rfl

theorem run_answerBy (network : Network) (disk : Disk) (e : Entry) (r : ChunkRequest)
    (log : List SocketAddress) : ∃ dialed,
      (answerBy (traced network) disk e r).run log = (answer network disk e r, log ++ dialed) ∧
        (dialed = [] ∨ dialed = [r.returnEndpoint.toSocketAddress]) := by
  rw [answerBy]
  rcases hread : e.readChunk disk r.chunkIndex.toNat with ⟨_ | data, e', disk'⟩
  · rw [answer_of_error hread]
    exact ⟨[], (congrArg (Prod.mk _) (List.append_nil log)).symm, .inl rfl⟩
  · rw [answer_of_ok hread]
    cases hd : delivery? r data with
    | none =>
      simp only [hd, Option.bind_none]
      exact ⟨[], (congrArg (Prod.mk _) (List.append_nil log)).symm, .inl rfl⟩
    | some message =>
      refine ⟨[r.returnEndpoint.toSocketAddress], ?_, .inr rfl⟩
      have hsend := run_sendAloneBy network r.returnEndpoint message log
      simp only [hd, Option.bind_some, StateT.run_bind, hsend]
      cases sendAlone network r.returnEndpoint message <;> rfl

/-- Handling a request with a record is handling it. -/
theorem run_requestBy (network : Network) (disk : Disk) (s : Store) (peers : PeerSet)
    (r : ChunkRequest) (source : PeerId) : ∃ dialed,
      (requestBy (traced network) disk s peers r source).run [] =
        (request network disk s peers r source, dialed) ∧
      (dialed = [] ∨ dialed = [r.returnEndpoint.toSocketAddress] ∧ holds s disk r ≠ none) := by
  rw [requestBy]
  cases hh : holds s disk r with
  | none =>
    rw [request_of_none hh]
    exact ⟨[], rfl, .inl rfl⟩
  | some e =>
    obtain ⟨dialed, hanswer, hdialed⟩ := run_answerBy network disk e r []
    refine ⟨dialed, ?_, hdialed.imp_right fun h => ⟨h, Option.some_ne_none e⟩⟩
    rw [request_of_some hh]
    simp only [StateT.run_bind, hanswer]
    rfl

/-! ## Every request -/

/-- What the answer to a request for chunk `i` of `e` is allowed to be: the chunk as it was
declared, or a failure. -/
def Answers (e : Entry) (r : ChunkRequest) (outcome : RequestOutcome) : Prop :=
  outcome = .deliveryFailed ∨ ∃ connection chunk i, outcome = .delivered connection ∧
    connection.Holds (.fileData chunk) ∧ chunk.hash = r.hash ∧ chunk.chunkIndex = r.chunkIndex ∧
      e.descriptor.Fits i chunk ∧ .ofContent chunk.data = e.descriptor.chunkHashes.get i

theorem answers_answer (hd : disk.WellFormed) (hfresh : network.Fresh)
    (hv : e.verifyChunk disk r.chunkIndex.toNat = true) :
    Answers e r (answer network disk e r).1 := by
  have hlt := Entry.lt_of_verifyChunk hv
  cases houtcome : (answer network disk e r).1 with
  | deliveryFailed => exact .inl rfl
  | relayed report =>
    rcases hread : e.readChunk disk r.chunkIndex.toNat with ⟨_ | data, e', disk'⟩
    · rw [answer_of_error hread] at houtcome
      cases houtcome
    · simp only [answer_of_ok hread] at houtcome
      split at houtcome <;> cases houtcome
  | delivered connection =>
    obtain ⟨data, hread, hle, hholds⟩ := holds_of_answer hfresh hlt houtcome
    have hlen := Entry.length_readChunk (i := ⟨_, hlt⟩) hread
    exact .inr ⟨connection, packed r data, ⟨_, hlt⟩, rfl, hholds, rfl, rfl,
      ⟨rfl, (toNat_declaredSize_packed r hle).trans hlen, hlen⟩,
      Entry.hash_of_readChunk (i := ⟨_, hlt⟩) hd hv hread⟩

/-- Passing a request on gives everyone else who takes a frame what arrived. -/
theorem peer?_broadcast_decoded (hnodup : peers.members.Nodup)
    (hdecode : Message.decode .requestFileData payload = .ok (.requestFileData r)) {id : PeerId}
    {p : Peer} (hid : id ∈ peers.members) (hne : id ≠ source) (hp : peers.peer? id = some p)
    (htakes : p.takes .requestFileData (payload.take ChunkRequest.width) = true) :
    (peers.broadcast (.requestFileData r) (some source)).2.peer? id =
      some (p.push (FrameHeader.frame .requestFileData (payload.take ChunkRequest.width))) := by
  obtain ⟨-, -, -, hencode⟩ := Message.encode_of_decode hdecode
  have hfans := PeerSet.fansOut_broadcast hnodup hencode (some source)
  have htarget : id ∈ peers.targets (some source) :=
    PeerSet.mem_targets.2 ⟨hid, fun h => hne (Option.some.inj h)⟩
  rw [hfans.target id htarget, hp, Option.map_some]
  exact congrArg some (Peer.attempt_of_takes htakes)

/-- Let a request be decoded from the payload of a peer. If the chunk is here and matches its
declared hash, no member gets anything, at most the return endpoint is dialed, once, and either the
chunk as it was declared stands alone on that connection or the delivery failed. If not, nobody is
dialed, the store and all files stay, the peer that asked gets nothing, and every other member that
takes a frame gets one, with the first 28 bytes of the payload. -/
theorem request_answers_or_relays (hd : disk.WellFormed) (hnodup : peers.members.Nodup)
    (hfresh : network.Fresh)
    (hdecode : Message.decode .requestFileData payload = .ok (.requestFileData r))
    (h : request network disk s peers r source = (outcome, disk', s', peers')) : ∃ dialed,
      (requestBy (traced network) disk s peers r source).run [] =
        ((outcome, disk', s', peers'), dialed) ∧
      (∀ e, s.lookup r.hash = some e → e.verifyChunk disk r.chunkIndex.toNat = true →
        peers' = peers ∧ (dialed = [] ∨ dialed = [r.returnEndpoint.toSocketAddress]) ∧
          Answers e r outcome) ∧
      ((∀ e, s.lookup r.hash = some e → e.verifyChunk disk r.chunkIndex.toNat = false) →
        dialed = [] ∧ disk' = disk ∧ s' = s ∧ (∃ report, outcome = .relayed report) ∧
          peers'.peer? source = peers.peer? source ∧
          (payload.take ChunkRequest.width).length = ChunkRequest.width ∧
          ∀ id p, id ∈ peers.members → id ≠ source → peers.peer? id = some p →
            p.takes .requestFileData (payload.take ChunkRequest.width) = true →
              peers'.peer? id = some (p.push
                (FrameHeader.frame .requestFileData (payload.take ChunkRequest.width)))) := by
  obtain ⟨dialed, hvia, hdialed⟩ := run_requestBy network disk s peers r source
  rw [h] at hvia
  refine ⟨dialed, hvia, ?_, ?_⟩
  · intro e hlookup hv
    have hholds : holds s disk r = some e := by
      rw [holds, hlookup, Option.filter_some, if_pos hv]
    rw [request_of_some hholds] at h
    cases h
    exact ⟨rfl, hdialed.imp_right And.left, answers_answer hd hfresh hv⟩
  · intro hno
    have hholds : holds s disk r = none := by
      rw [holds, Option.filter_eq_none_iff]
      intro e hlookup
      rw [hno e hlookup]
      exact Bool.false_ne_true
    obtain ⟨-, -, hwidth, -⟩ := Message.encode_of_decode hdecode
    rw [request_of_none hholds] at h
    cases h
    refine ⟨hdialed.resolve_right fun hboth => hboth.2 hholds, rfl, rfl, ⟨_, rfl⟩,
      peers.peer?_broadcast_some _ source, List.length_take_of_le hwidth, ?_⟩
    intro id p hid hne hp htakes
    exact peer?_broadcast_decoded hnodup hdecode hid hne hp htakes

/-- A request for a chunk of a file that was shared is answered. One for a chunk of an unknown file,
with two bytes too many, is passed on without them. -/
theorem request_answers_or_relays_shared :
    let network : Network := { Network.isolated with dial := fun a => .ok ⟨a, .unlimited⟩ }
    let peers : PeerSet := ⟨[.connected default .unlimited, .connected default .unlimited], [0, 1]⟩
    let unknown : ChunkRequest := ⟨.zero, 3, ⟨.loopback, 9⟩, 5⟩
    ∃ disk s e, Disk.empty.write "f" (Bytes.zeros 512) = .ok disk ∧
      (Store.empty "").share disk "f" "f" = .ok (.ofContent "f" (Bytes.zeros 512), s) ∧
      s.lookup zerosRequest.hash = some e ∧ e.verifyChunk disk 0 = true ∧
      (request network disk s peers zerosRequest 0).2.2.2 = peers ∧
      Answers e zerosRequest (request network disk s peers zerosRequest 0).1 ∧
      Message.decode .requestFileData (Message.encodeRequest unknown ++ [7, 7]) =
        .ok (.requestFileData unknown) ∧
      ((request network disk (.empty "") peers unknown 0).2.2.2.peer? 1).map (·.sink.taken) =
        some (FrameHeader.frame .requestFileData (Message.encodeRequest unknown)) := by
  intro network peers unknown
  obtain ⟨disk, s, -, hw, hshare, -, -, -, hopens, -⟩ := exists_shared_zeros
  have hwf := Disk.wellFormed_empty.write hw
  obtain ⟨hlookup, hv⟩ := Option.filter_eq_some_iff.1 hopens.holds
  have hnodup : peers.members.Nodup := by decide
  have hfresh : network.Fresh := by
    intro address dialed hdial
    cases hdial
    rfl
  have hknown : Message.decode .requestFileData (Message.encodeRequest zerosRequest) =
      .ok (.requestFileData zerosRequest) := by
    rw [Message.decode, Message.decodeRequest_encode (by decide)]
    rfl
  have hunknown : Message.decode .requestFileData (Message.encodeRequest unknown ++ [7, 7]) =
      .ok (.requestFileData unknown) := by decide +kernel
  have hempty : ∀ e, (Store.empty "").lookup unknown.hash = some e →
      e.verifyChunk disk unknown.chunkIndex.toNat = false := by
    intro e he
    rw [Store.lookup_empty] at he
    cases he
  obtain ⟨⟨outcome, disk', s', peers'⟩, hfirst⟩ :
    ∃ x, request network disk s peers zerosRequest 0 = x := ⟨_, rfl⟩
  obtain ⟨⟨outcome', disk'', s'', peers''⟩, hsecond⟩ :
    ∃ x, request network disk (.empty "") peers unknown 0 = x := ⟨_, rfl⟩
  obtain ⟨_, -, hanswers, -⟩ := request_answers_or_relays hwf hnodup hfresh hknown hfirst
  obtain ⟨_, -, -, hrelays⟩ := request_answers_or_relays hwf hnodup hfresh hunknown hsecond
  obtain ⟨hsame, -, hanswer⟩ := hanswers _ hlookup hv
  obtain ⟨-, -, -, -, -, -, hothers⟩ := hrelays hempty
  refine ⟨disk, s, _, hw, hshare, hlookup, hv, ?_, ?_, hunknown, ?_⟩
  · rw [hfirst]
    exact hsame
  · rw [hfirst]
    exact hanswer
  · have htaken := hothers 1 (.connected default .unlimited) (by decide) (by decide) rfl
      (by decide +kernel)
    rw [hsecond, htaken]
    decide +kernel

end Relay

end FileMesh
