import FileMesh.Node.Connection
import FileMesh.Proofs.Frame.Alignment
import FileMesh.Proofs.Frame.Reading
import FileMesh.Proofs.Peer.Connection

/-!
# Malformed frames

A frame that carries no message, because its kind is unknown, its payload is refused or too much of
it was cut off, is consumed like any other and leaves no trace. So a connection is handled as if
such frames had never been sent. It does not end because of them: whatever a peer says, it is still
a member, and its connection is still open, when the next frame is read.
-/

namespace FileMesh

/-- The message in at most `limit` bytes of the payload. -/
def Frame.message? (limit : Nat) (f : Frame) : Option Message :=
  (FrameReader.interpret f.header (f.payload.take limit)).toOption

/-! ## Reading -/

namespace FrameReader

variable {r : FrameReader} {f : Frame} {rest : Bytes}

/-- A whole frame is consumed, whether or not it carries a message. -/
theorem next_of_whole (h : r.unread = f.bytes ++ rest) (limit : Nat) : ∃ r', r'.unread = rest ∧
    r.next limit = ((interpret f.header (f.payload.take limit)).mapError .protocol, r') := by
  rw [Frame.bytes, List.append_assoc] at h
  obtain ⟨source, hreceive, hsource⟩ := receive_frame h f.length_eq limit
  refine ⟨⟨none, source⟩, hsource, ?_⟩
  simp only [next, hreceive]
  cases interpret f.header (f.payload.take limit) <;> rfl

end FrameReader

/-! ## The connection that a broadcast leaves out -/

namespace PeerSet

variable {s : PeerSet} {id : PeerId} {ids : List PeerId}

theorem peer?_sendEach_of_not_mem (kind : MessageType) (payload : Bytes) (h : id ∉ ids) :
    (sendEach kind payload ids s).2.peer? id = s.peer? id := by
  induction ids generalizing s with
  | nil => rfl
  | cons target rest ih =>
    rw [List.mem_cons, not_or] at h
    rw [sendEach_cons_snd, ih h.2, peer?_sendFrame, if_neg (Ne.symm h.1)]

theorem not_mem_failed_sendEach (kind : MessageType) (payload : Bytes) (h : id ∉ ids) :
    id ∉ (sendEach kind payload ids s).1.failed := by
  have hle := count_failed_sendEach_le kind payload ids s id
  rw [List.count_eq_zero.2 h] at hle
  exact List.count_eq_zero.1 (Nat.le_zero.1 hle)

theorem not_mem_filter_ne (ids : List PeerId) (id : PeerId) :
    id ∉ ids.filter fun target => some target != some id := by
  simp

/-- Nothing reaches the connection that is left out. -/
theorem peer?_broadcast_some (s : PeerSet) (m : Message) (id : PeerId) :
    (s.broadcast m (some id)).2.peer? id = s.peer? id := by
  have hskip := not_mem_filter_ne s.members id
  simp only [broadcast]
  cases m.encode with
  | error e => rfl
  | ok payload =>
    rw [peer?_dropAll, if_neg (not_mem_failed_sendEach _ _ hskip)]
    exact peer?_sendEach_of_not_mem _ _ hskip

/-- The connection that is left out does not leave. -/
theorem mem_members_broadcast_some (s : PeerSet) (m : Message) (id : PeerId) :
    id ∈ (s.broadcast m (some id)).2.members ↔ id ∈ s.members := by
  have hskip := not_mem_filter_ne s.members id
  simp only [broadcast]
  cases m.encode with
  | error e => rfl
  | ok payload =>
    have hreached := not_mem_failed_sendEach (s := s) m.type payload hskip
    simp [List.mem_filter, hreached]

end PeerSet

/-! ## Handling -/

namespace Node

variable {network : Network} {disk : Disk} {n n' : Node} {id : PeerId} {r r' : FrameReader}
  {f : Frame} {frames : List Frame} {rest : Bytes}

/-- Handles messages from a peer one after the other. -/
def dispatchAll (network : Network) (disk : Disk) (n : Node) (source : PeerId)
    (messages : List Message) : Node × Disk :=
  messages.foldl (fun s m => dispatch network s.2 s.1 source m) (n, disk)

/-- The settings are the same, and the connection is open and a member if it was before. -/
structure Listens (id : PeerId) (n n' : Node) : Prop where
  config : n'.config = n.config
  isClosed : n'.isClosed id = n.isClosed id
  member : id ∈ n'.peers.members ↔ id ∈ n.peers.members

theorem Listens.refl (id : PeerId) (n : Node) : Listens id n n := ⟨rfl, rfl, Iff.rfl⟩

theorem Listens.trans {n'' : Node} (h : Listens id n n') (h' : Listens id n' n'') :
    Listens id n n'' :=
  ⟨h'.config.trans h.config, h'.isClosed.trans h.isClosed, h'.member.trans h.member⟩

theorem listens_broadcast (n : Node) (store : Store) (m : Message) (id : PeerId) :
    Listens id n { n with store, peers := (n.peers.broadcast m (some id)).2 } where
  config := rfl
  isClosed := by rw [Node.isClosed, Node.isClosed, PeerSet.peer?_broadcast_some]
  member := n.peers.mem_members_broadcast_some m id

theorem listens_reportAddress (n : Node) (id : PeerId) : Listens id n (n.reportAddress id) := by
  rw [reportAddress]
  cases hp : n.peers.peer? id with
  | none => exact .refl id n
  | some p =>
    simp only [Option.bind_some]
    split
    · refine ⟨rfl, ?_, by rw [PeerSet.members_send]⟩
      rw [Node.isClosed, Node.isClosed, PeerSet.send_of_peer? hp, PeerSet.peer?_modify, if_pos rfl,
        hp]
      rfl
    · exact .refl id n

/-- No message ends the connection it came from. -/
theorem listens_dispatch (network : Network) (disk : Disk) (n : Node) (id : PeerId) (m : Message) :
    Listens id n (dispatch network disk n id m).1 := by
  cases m with
  | fileDef d =>
    rw [dispatch, Gossip.hear]
    cases Gossip.learn n.store d with
    | none => exact .refl id n
    | some store => exact n.listens_broadcast store _ id
  | requestFileData request =>
    rw [dispatch]
    cases hholds : Relay.holds n.store disk request with
    | none =>
      rw [Relay.request_of_none hholds]
      exact n.listens_broadcast n.store _ id
    | some e =>
      rw [Relay.request_of_some hholds]
      exact ⟨rfl, rfl, Iff.rfl⟩
  | fileData chunk => exact ⟨rfl, rfl, Iff.rfl⟩
  | requestAddrSelf => exact n.listens_reportAddress id
  | addrSelf observed => exact ⟨rfl, rfl, Iff.rfl⟩

/-- Neither do any number of messages. -/
theorem listens_dispatchAll (network : Network) (disk : Disk) (n : Node) (id : PeerId)
    (messages : List Message) : Listens id n (dispatchAll network disk n id messages).1 := by
  induction messages generalizing n disk with
  | nil => exact .refl id n
  | cons m messages ih => exact (listens_dispatch network disk n id m).trans (ih _ _)

/-- At the end of the stream nothing is left to do. -/
theorem handleAll_of_nil (network : Network) (disk : Disk) (n : Node) (id : PeerId)
    (h : r.unread = []) : handleAll network disk n id r = (n, disk) := by
  obtain ⟨e, r', hnext, hfatal⟩ :=
    FrameReader.next_of_nil h n.config.maxFrameBytes.toNat
  rw [handleAll]
  split
  · rename_i hn
    rw [hnext] at hn
    cases hn
  · rename_i hn
    rw [hnext] at hn
    cases hn
    exact dif_pos hfatal

/-- One frame is handled by handling its message, if it carries one. -/
theorem handleAll_of_frame (network : Network) (disk : Disk) (n : Node) (id : PeerId)
    (h : r.unread = f.bytes ++ rest) : ∃ r', r'.unread = rest ∧
      let s := dispatchAll network disk n id (f.message? n.config.maxFrameBytes.toNat).toList
      handleAll network disk n id r = handleAll network s.2 s.1 id r' := by
  obtain ⟨r', hrest, hnext⟩ := FrameReader.next_of_whole h n.config.maxFrameBytes.toNat
  refine ⟨r', hrest, ?_⟩
  rw [handleAll, Frame.message?]
  cases hm : FrameReader.interpret f.header
      (f.payload.take n.config.maxFrameBytes.toNat) with
  | error e =>
    rw [hm] at hnext
    split
    · rename_i hn
      rw [hnext] at hn
      cases hn
    · rename_i hn
      rw [hnext] at hn
      cases hn
      rfl
  | ok m =>
    rw [hm] at hnext
    split
    · rename_i hn
      rw [hnext] at hn
      cases hn
      rfl
    · rename_i hn
      rw [hnext] at hn
      cases hn

/-- Whole frames are handled by handling the messages that they carry. -/
theorem exists_handleAll_eq (network : Network) (disk : Disk) (n : Node) (id : PeerId)
    (h : r.unread = frames.flatMap Frame.bytes ++ rest) : ∃ r', r'.unread = rest ∧
      let s := dispatchAll network disk n id
        (frames.filterMap (Frame.message? n.config.maxFrameBytes.toNat))
      handleAll network disk n id r = handleAll network s.2 s.1 id r' := by
  induction frames generalizing disk n r with
  | nil => exact ⟨r, h, rfl⟩
  | cons f frames ih =>
    rw [List.flatMap_cons, List.append_assoc] at h
    obtain ⟨r₁, h₁, hfirst⟩ := handleAll_of_frame network disk n id h
    have hlistens := listens_dispatchAll network disk n id
      (f.message? n.config.maxFrameBytes.toNat).toList
    -- The limit is a setting, and no message changes the settings.
    obtain ⟨r', hrest, hframes⟩ := ih _ _ h₁
    rw [hlistens.config] at hframes
    refine ⟨r', hrest, hfirst.trans (hframes.trans ?_)⟩
    rw [List.filterMap_cons]
    cases f.message? n.config.maxFrameBytes.toNat <;> rfl

theorem handleAll_frames (network : Network) (disk : Disk) (n : Node) (id : PeerId)
    (h : r.unread = frames.flatMap Frame.bytes) : handleAll network disk n id r =
      dispatchAll network disk n id
        (frames.filterMap (Frame.message? n.config.maxFrameBytes.toNat)) := by
  rw [← List.append_nil (frames.flatMap Frame.bytes)] at h
  obtain ⟨r', hrest, hframes⟩ := exists_handleAll_eq network disk n id h
  exact hframes.trans (handleAll_of_nil _ _ _ _ hrest)

theorem config_beginReader (n : Node) (id : PeerId) : (n.beginReader id).config = n.config := by
  rw [beginReader]
  split <;> rfl

theorem beginReader_of_open (h : n.isClosed id = false) :
    n.beginReader id = n.setReader id (.reading false) :=
  if_neg (by rw [h]; exact Bool.false_ne_true)

/-- Let whole frames arrive on a connection, of which any number carry no message, because of their
kind, of their payload or of the limit. The node and the disk afterwards are those of the same
stream without these frames, however the two are cut and end. Of what came before any frame, the
messages that were carried were handled, in order and nothing else, and the frame is read: an open
connection is still open then, and its peer is still a member if it was one. -/
theorem runConnection_ignores_malformed (network : Network) (disk : Disk) (n : Node) (id : PeerId)
    (h : r.unread = frames.flatMap Frame.bytes)
    (h' : r'.unread = (frames.filter fun f =>
      (f.message? n.config.maxFrameBytes.toNat).isSome).flatMap Frame.bytes) :
    runConnection network disk n id r = runConnection network disk n id r' ∧
    ∀ before after, frames = before ++ after → n.isClosed id = false →
      let s := dispatchAll network disk (n.beginReader id) id
        (before.filterMap (Frame.message? n.config.maxFrameBytes.toNat))
      ∃ r₁, r₁.unread = after.flatMap Frame.bytes ∧
        handleAll network disk (n.beginReader id) id r = handleAll network s.2 s.1 id r₁ ∧
        s.1.isClosed id = false ∧ (id ∈ s.1.peers.members ↔ id ∈ n.peers.members) := by
  constructor
  · simp only [runConnection]
    rw [handleAll_frames network disk (n.beginReader id) id h,
      handleAll_frames network disk (n.beginReader id) id h', config_beginReader]
    -- Of a list and of its members with a message, the messages are the same.
    have hmessages : (frames.filter fun f =>
        (f.message? n.config.maxFrameBytes.toNat).isSome).filterMap
          (Frame.message? n.config.maxFrameBytes.toNat) =
        frames.filterMap (Frame.message? n.config.maxFrameBytes.toNat) := by
      rw [List.filterMap_filter]
      congr 1
      funext f
      cases f.message? n.config.maxFrameBytes.toNat <;> rfl
    rw [hmessages]
  · intro before after hsplit hopen s
    rw [hsplit, List.flatMap_append] at h
    obtain ⟨r₁, h₁, hhandled⟩ := exists_handleAll_eq network disk (n.beginReader id) id h
    rw [config_beginReader] at hhandled
    have hlistens : Listens id (n.beginReader id) s.1 := listens_dispatchAll ..
    rw [beginReader_of_open hopen] at hlistens
    exact ⟨r₁, h₁, hhandled, hlistens.isClosed.trans hopen, hlistens.member⟩

/-- A frame of no kind, a question and an address that the limit cuts off arrive in pieces. The
question alone, which is answered, does the same. -/
theorem runConnection_ignores_malformed_address :
    let n := ((new { Config.standard with maxFrameBytes := 5 }).attach default default .unlimited).2
    let unknown : Frame := ⟨⟨0x42, 3⟩, [1, 2, 3], rfl⟩
    let question : Frame := ⟨⟨0x0D, 0⟩, [], rfl⟩
    let address : Frame := ⟨⟨0x0C, 6⟩, [127, 0, 0, 1, 0, 9], rfl⟩
    let r := FrameReader.ofSource
      ⟨[unknown.bytes.take 10, unknown.bytes.drop 10, question.bytes ++ address.bytes], .closed⟩
    let r' := FrameReader.ofSource ⟨[question.bytes], .reset⟩
    (address.message? 6).isSome = true ∧ (address.message? 5).isSome = false ∧
      runConnection .isolated .empty n 0 r = runConnection .isolated .empty n 0 r' ∧
      ∃ s : Node × Disk, handleAll .isolated .empty (n.beginReader 0) 0 r = s ∧
        s.1.peers.members = [0] ∧ (s.1.peers.peer? 0).map (·.sink.taken) =
          some ((⟨0x0C, 6⟩ : FrameHeader).encode ++ [0, 0, 0, 0, 0, 0]) := by
  intro n unknown question address r r'
  have h : r.unread = [unknown, question, address].flatMap Frame.bytes := by decide
  have h' : r'.unread = ([unknown, question, address].filter fun f =>
      (f.message? n.config.maxFrameBytes.toNat).isSome).flatMap Frame.bytes := by decide +kernel
  obtain ⟨hsame, hbefore⟩ := runConnection_ignores_malformed .isolated .empty n 0 h h'
  obtain ⟨r₁, h₁, hhandled, -⟩ := hbefore [unknown, question, address] [] rfl rfl
  rw [handleAll_of_nil _ _ _ _ h₁] at hhandled
  exact ⟨by decide +kernel, by decide +kernel, hsame, _, hhandled, by decide +kernel,
    by decide +kernel⟩

end Node

end FileMesh
