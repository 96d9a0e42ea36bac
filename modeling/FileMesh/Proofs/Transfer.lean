import FileMesh.Proofs.Download
import FileMesh.Proofs.Request

/-!
# A transfer over the wire

One node shares a file and tells another of it; the other asks for chunks in any order, some of them
more than once, and is sent them at its return endpoint. Everything goes over the wire as frames.
Each round brings the chunk that was asked for, and once every chunk was asked for the file is
there.

The connections are arbitrary: a sink takes what it is offered in pieces of any size, and what was
written is cut in any way when it is read, with other frames after it or with its header looked at
before.
-/

namespace FileMesh

/-! ## Carrying a message -/

/-- What is read, however it is cut and whatever follows, begins with the bytes that were written.
-/
def FrameReader.Continues (reader : Bytes → FrameReader) : Prop :=
  ∀ written, ∃ rest, (reader written).unread = written ++ rest

/-- A connection: where it is written, and what reads it at its other end once these bytes were
written. -/
structure Line where
  sink : Sink
  reader : Bytes → FrameReader

namespace Line

/-- Sends a message and reads it at the other end. -/
def carry (l : Line) (limit : Nat) (m : Message) : Option Message :=
  match l.sink.sendMessage m with
  | (.ok (), sink) => ((l.reader (sink.taken.drop l.sink.taken.length)).next limit).1.toOption
  | (.error _, _) => none

/-- A connection on which nothing is lost. -/
structure Sound (l : Line) : Prop where
  willing : l.sink.Willing
  continues : FrameReader.Continues l.reader

/-- A well-formed message arrives as it was sent. -/
theorem Sound.carry {l : Line} (h : l.Sound) {m : Message} (hm : m.WellFormed) {payload : Bytes}
    (he : m.encode = .ok payload) (hlt : payload.length < 2 ^ 64) {limit : Nat}
    (hle : payload.length ≤ limit) : l.carry limit m = some m := by
  obtain ⟨payload', he', hd⟩ := m.decode_encode hm
  obtain rfl : payload = payload' := Except.ok.inj (he.symm.trans he')
  obtain ⟨rest, hrest⟩ := h.continues (FrameHeader.frame m.type payload)
  obtain ⟨r', hnext, -⟩ := FrameReader.next_frame hd hlt hle hrest
  simp only [Line.carry, h.willing.sendMessage he, List.drop_left, hnext]
  rfl

/-- So does a descriptor whose name fits and has no NUL. -/
theorem Sound.carry_fileDef {l : Line} (h : l.Sound) {d : Descriptor}
    (hfits : d.nameLength ≤ nameWidth) (hname : '\x00' ∉ d.name.toList) {limit : Nat}
    (hlimit : Descriptor.width ≤ limit) : l.carry limit (.fileDef d) = some (.fileDef d) := by
  obtain ⟨payload, he, hpayload, -⟩ := Descriptor.decode_encode hfits hname
  have hformed : (Message.fileDef d).WellFormed := ⟨hfits, hname⟩
  exact h.carry hformed he (by rw [hpayload]; decide) (by rw [hpayload]; exact hlimit)

end Line

namespace Transfer

/-! ## Rounds -/

/-- The node that has the file and the node that fetches it, each with its disk and its entries. -/
structure Parties where
  holderDisk : Disk
  holder : Store
  fetcherDisk : Disk
  fetcher : Store

/-- Everything that a request and its answer depend on: the chunk that is asked for, the connection
from the fetcher to the holder, whose frame limit is `requestLimit`, where the fetcher waits, and
the network and the peers of the holder, the fetcher among them. The reader is that at the return
endpoint once these bytes were written. -/
structure Round where
  index : ChunkIndex
  line : Line
  requestLimit : Nat
  returnEndpoint : Endpoint
  ttl : UInt8
  network : Network
  peers : PeerSet
  source : PeerId
  reader : Bytes → FrameReader

/-- The request of a round. -/
def Round.request (k : Round) (hash : ContentHash) : ChunkRequest :=
  ⟨hash, UInt32.ofNat k.index.val, k.returnEndpoint, k.ttl⟩

/-- A round in which no connection fails. -/
structure Round.Sound (k : Round) : Prop where
  line : k.line.Sound
  requestLimit : ChunkRequest.width ≤ k.requestLimit
  reaches : k.network.Reaches k.returnEndpoint
  continues : FrameReader.Continues k.reader

/-- A request goes to the holder, and what the holder sends to the return endpoint to the fetcher,
whose frame limit is `limit`. -/
def exchange (limit : Nat) (hash : ContentHash) (n : Parties) (k : Round) :
    Option (Relay.DeliveryOutcome × Parties) :=
  match k.line.carry k.requestLimit (.requestFileData (k.request hash)) with
  | some (.requestFileData r) =>
    match Relay.request k.network n.holderDisk n.holder k.peers r k.source with
    | (.delivered connection, holderDisk, holder, _) =>
      match (k.reader connection.taken).next limit with
      | (.ok (.fileData chunk), _) =>
        let (outcome, fetcherDisk, fetcher) := Relay.deliver n.fetcherDisk n.fetcher chunk
        some (outcome, { holderDisk, holder, fetcherDisk, fetcher })
      | _ => none
    | _ => none
  | _ => none

/-- Any number of rounds. -/
def exchanges (limit : Nat) (hash : ContentHash) (n : Parties) (rounds : List Round) :
    Option Parties :=
  rounds.foldlM (fun n k => (exchange limit hash n k).map Prod.snd) n

/-! ## One round -/

variable {d : Descriptor} {c : Bytes} {e : Entry} {disk : Disk} {events : List Relay.Event}
  {n : Parties} {k : Round} {limit : Nat}

/-- The holder has a file with the content `c`, and the entry of the fetcher has got as far as the
events bring it. -/
structure Linked (d : Descriptor) (c : Bytes) (e : Entry) (disk : Disk) (events : List Relay.Event)
    (n : Parties) : Prop where
  holds : n.holder.Holds n.holderDisk d c
  valid : n.fetcher.Valid
  lookup : n.fetcher.lookup d.hash = some (Relay.run events (e, disk)).1
  disk : n.fetcherDisk = (Relay.run events (e, disk)).2
  honest : ∀ chunk ∈ Relay.arrivals events, ∃ i, d.Carries c i chunk

theorem toNat_index (k : Round) (hash : ContentHash) :
    (k.request hash).chunkIndex.toNat = k.index.val := by
  have hi : k.index.val < 8 := k.index.isLt
  rw [Round.request, UInt32.toNat_ofNat', Nat.mod_eq_of_lt (by omega)]

/-- The holder gets the request that was made. -/
theorem Round.Sound.carry_request (hk : k.Sound) (hash : ContentHash) :
    k.line.carry k.requestLimit (.requestFileData (k.request hash)) =
      some (.requestFileData (k.request hash)) := by
  have hwidth := Message.length_encodeRequest (k.request hash)
  have hformed : (Message.requestFileData (k.request hash)).WellFormed := by
    rw [Message.WellFormed, toNat_index]
    exact k.index.isLt
  exact hk.line.carry hformed rfl (by rw [hwidth]; decide) (by rw [hwidth]; exact hk.requestLimit)

/-- The fetcher gets the chunk that was sent. -/
theorem Round.Sound.next_reply (hk : k.Sound) {chunk : ChunkData} {i : ChunkIndex}
    (hc : d.Carries c i chunk) (hlt : chunk.data.length < 2 ^ 32)
    (hle : chunk.data.length + ChunkData.fixedWidth ≤ limit) :
    ∃ r, (k.reader (FrameHeader.frame .fileData (Message.encodeData chunk))).next limit =
      (.ok (.fileData chunk), r) := by
  have hlength : (Message.encodeData chunk).length = 24 + chunk.data.length :=
    Message.length_encodeData chunk
  obtain ⟨rest, hrest⟩ := hk.continues (FrameHeader.frame .fileData (Message.encodeData chunk))
  have hdeclared : chunk.declaredSize.toNat = chunk.data.length := by rw [hc.declared, hc.data]
  have hindex : chunk.chunkIndex.toNat < chunkCount := hc.index ▸ i.isLt
  obtain ⟨payload, he, hd⟩ := Message.decode_encode (m := .fileData chunk) ⟨hindex, hdeclared⟩
  cases he
  have hlimit : (Message.encodeData chunk).length ≤ limit := by
    rw [hlength, Nat.add_comm]
    exact hle
  obtain ⟨r, hr, -⟩ := FrameReader.next_frame hd (by omega) hlimit hrest
  exact ⟨r, hr⟩

section

variable (hlen : c.length = d.size.toNat) (hm : ∀ i, d.Matches c i)
  (hsmall : Descriptor.largestChunk c < 2 ^ 32)
  (hlimit : Descriptor.largestChunk c + ChunkData.fixedWidth ≤ limit)
include hlen hm hsmall hlimit

/-- A round brings the chunk that was asked for. -/
theorem Linked.exchange (h : Linked d c e disk events n) (hk : k.Sound) :
    ∃ chunk n', exchange limit d.hash n k = some ((Relay.accept (Relay.run events (e, disk)).2
        (Relay.run events (e, disk)).1 chunk).1, n') ∧
      d.Carries c k.index chunk ∧ Linked d c e disk (events ++ [.accept chunk]) n' := by
  have hle := d.length_chunkOf_le hlen k.index
  have hi := toNat_index k d.hash
  obtain ⟨connection, holderDisk, holder, hrelay, htaken, hholds⟩ :=
    Relay.request_of_holds h.holds (r := k.request d.hash) rfl hi (hm k.index) (by omega)
      hk.reaches k.peers k.source
  have hcarries := Relay.carries_reply (d := d) (c := c) (r := k.request d.hash) hi (by omega)
  obtain ⟨r, hnext⟩ := hk.next_reply hcarries (Nat.lt_of_le_of_lt hle hsmall)
    (Nat.le_trans (Nat.add_le_add_right hle _) hlimit)
  rw [← htaken] at hnext
  obtain ⟨⟨outcome, e', disk'⟩, haccept⟩ : ∃ r, Relay.accept (Relay.run events (e, disk)).2
      (Relay.run events (e, disk)).1 (Relay.reply d c k.index (k.request d.hash)) = r := ⟨_, rfl⟩
  have hdeliver := Relay.deliver_of_lookup h.lookup haccept
  have hrun : Relay.run (events ++ [.accept (Relay.reply d c k.index (k.request d.hash))])
      (e, disk) = (e', disk') := by
    rw [Relay.run_append]
    exact congrArg Prod.snd haccept
  refine ⟨_, ⟨holderDisk, holder, disk', n.fetcher.modify d.hash fun _ => e'⟩, ?_, hcarries, ?_⟩
  · rw [haccept]
    simp only [Transfer.exchange, hk.carry_request, hrelay, hnext, h.disk, hdeliver]
    rfl
  · exact {
      holds := hholds
      valid := h.valid.modify _ _
      lookup := by
        rw [hrun]
        exact h.valid.lookup_replace h.lookup
      disk := by rw [hrun]
      honest := by
        intro chunk hchunk
        rw [Relay.arrivals_append, List.mem_append] at hchunk
        rcases hchunk with hchunk | hchunk
        · exact h.honest chunk hchunk
        · obtain rfl := List.mem_singleton.1 hchunk
          exact ⟨_, hcarries⟩ }

/-- Rounds bring every chunk that was asked for. -/
theorem Linked.exchanges (h : Linked d c e disk events n) {rounds : List Round}
    (hr : ∀ k ∈ rounds, k.Sound) : ∃ events' n', exchanges limit d.hash n rounds = some n' ∧
      Linked d c e disk (events ++ events') n' ∧
      ∀ k ∈ rounds, ∃ chunk ∈ Relay.arrivals events', d.Carries c k.index chunk := by
  induction rounds generalizing n events with
  | nil =>
    refine ⟨[], n, rfl, ?_, fun k hk => absurd hk List.not_mem_nil⟩
    rw [List.append_nil]
    exact h
  | cons k rounds ih =>
    obtain ⟨chunk, n₁, hstep, hcarries, hlinked⟩ :=
      h.exchange hlen hm hsmall hlimit (hr k List.mem_cons_self)
    obtain ⟨events', n', hrest, hlinked', hall⟩ :=
      ih hlinked fun k' hk' => hr k' (List.mem_cons_of_mem _ hk')
    refine ⟨.accept chunk :: events', n', ?_, ?_, ?_⟩
    · rw [Transfer.exchanges, List.foldlM_cons, hstep]
      exact hrest
    · rw [List.append_cons]
      exact hlinked'
    · intro k' hk'
      rcases List.mem_cons.1 hk' with rfl | hk'
      · exact ⟨chunk, List.mem_cons_self, hcarries⟩
      · obtain ⟨chunk', hmem, hcarries'⟩ := hall k' hk'
        exact ⟨chunk', List.mem_cons_of_mem _ hmem, hcarries'⟩

end

/-! ## What the fetcher has -/

/-- What a round with chunk `i` does at the fetcher. Only a file that has the hash of the content
but is not the content could match as a whole before and not afterwards. -/
structure Advances (c : Bytes) (i : ChunkIndex) (outcome : Relay.DeliveryOutcome)
    (s s' : Entry × Disk) : Prop where
  outcome : outcome = .stored ∨ outcome = .alreadyVerified
  verifyChunk : s'.1.verifyChunk s'.2 i = true
  verify : (s'.1.verify s'.2).has i = true
  keepsChunks : ∀ j : ChunkIndex, s.1.verifyChunk s.2 j = true → s'.1.verifyChunk s'.2 j = true
  keepsMask : (∀ b, s.1.bytes? s.2 = some b → ContentHash.CollisionFree [b, c]) →
    ∀ j : ChunkIndex, (s.1.verify s.2).has j = true → (s'.1.verify s'.2).has j = true

variable {disk' : Disk} {id : FileId} {path : String}

/-- A chunk of the content advances an entry that was learned from a peer, however far it has got.
-/
theorem advances_accept (ho : (Entry.ofPeer d path).Opens disk disk' id)
    (hlen : c.length = d.size.toNat) (hm : ∀ i, d.Matches c i) (hhash : .ofContent c = d.hash)
    {events : List Relay.Event} {s : Entry × Disk}
    (hs : Relay.run events (.ofPeer d path, disk) = s) {i : ChunkIndex} {chunk : ChunkData}
    (hc : d.Carries c i chunk) :
    Advances c i (Relay.accept s.2 s.1 chunk).1 s (Relay.accept s.2 s.1 chunk).2 := by
  obtain ⟨hd, disk₁, ho₁⟩ := Relay.exists_opens_run ho events
  rw [hs] at hd ho₁
  obtain ⟨houtcome, hverified⟩ :=
    Relay.verifyChunk_accept ho₁ (by rwa [hd]) (by rwa [hd]) (by rw [hd]; exact hm i)
  have hset := (Entry.has_verify _ _ i).2 (.inr hverified)
  rcases Relay.run_ofPeer ho events with hfresh | hfills
  · rw [hs] at hfresh
    refine ⟨houtcome, hverified, hset, fun j hj => ?_, fun _ j hj => ?_⟩
    · rw [hfresh, Relay.verifyChunk_ofPeer] at hj
      cases hj
    · rw [hfresh, Relay.has_verify_ofPeer] at hj
      cases hj
  · rw [hs] at hfills
    have hkeeps := Relay.keeps_accept hfills.backed chunk
    refine ⟨houtcome, hverified, hset, fun j => hkeeps.verifyChunk hfills.backed,
      fun hfree j => hkeeps.has_verify hfills.backed fun hwhole j => ?_⟩
    have hsame : s.2.content id = c := by
      refine hfree _ hfills.backed.bytes?_eq _ (by simp) _ (by simp) ?_
      rw [hwhole, hfills.descriptor, hhash]
    rw [hfills.descriptor, hsame]
    exact hm j

/-- The file of an entry is complete: a check says so, and what is saved is the content, if no chunk
of it has the hash of another one or of a chunk of `prior`, which was in the file before. -/
structure Complete (d : Descriptor) (c prior : Bytes) (s : Entry × Disk) : Prop where
  verify : s.1.verify s.2 = .all
  saved : ContentHash.CollisionFree (Relay.occurring d c prior []) →
    (s.1.save s.2).2.1.bytes? (s.1.save s.2).2.2 = some c

theorem collisionFree_occurring {prior : Bytes} {chunks : List ChunkData}
    (hfree : ContentHash.CollisionFree (Relay.occurring d c prior []))
    (hc : ∀ chunk ∈ chunks, ∃ i, d.Carries c i chunk) :
    ContentHash.CollisionFree (Relay.occurring d c prior chunks) := by
  have hmem : ∀ a ∈ Relay.occurring d c prior chunks, a ∈ Relay.occurring d c prior [] := by
    intro a ha
    rw [Relay.occurring, List.mem_append] at ha
    rcases ha with ha | ha
    · exact List.mem_append_left _ ha
    · obtain ⟨chunk, hchunk, rfl⟩ := List.mem_map.1 ha
      obtain ⟨i, hi⟩ := hc chunk hchunk
      rw [hi.data]
      exact Relay.mem_occurring d c prior [] i
  exact fun a ha b hb => hfree a (hmem a ha) b (hmem b hb)

/-- Once every chunk has arrived and only chunks of the content have, the file is complete. -/
theorem complete_run (ho : (Entry.ofPeer d path).Opens disk disk' id)
    (hlen : c.length = d.size.toNat) (hm : ∀ i, d.Matches c i)
    (honest : ∀ chunk ∈ Relay.arrivals events, ∃ i, d.Carries c i chunk)
    (hall : ∀ i, ∃ chunk ∈ Relay.arrivals events, d.Carries c i chunk) :
    Complete d c (disk'.content id) (Relay.run events (.ofPeer d path, disk)) := by
  obtain ⟨hfills, hverify, hcontent⟩ := Relay.complete_run ho hlen hm rfl hall
  refine ⟨hverify, ?_⟩
  intro hfree
  rw [hfills.backed.save.bytes?_eq, Entry.content_save,
    hcontent (collisionFree_occurring hfree honest)]

/-! ## From sharing to the saved file -/

/-- A file that is large enough and new can be shared. A node that is told of a shared file can
fetch it, in rounds for any chunks in any order, if it can be mapped where it was shared. Every
round brings its chunk and loses none, and after rounds for all chunks the file is complete. -/
theorem share_transfers {s : Store} {disk : Disk} {path name : String} {c : Bytes} {line : Line}
    {descriptorLimit : Nat} (hs : s.Valid) (hdisk : disk.WellFormed)
    (hread : disk.read path = .ok c) (hname : '\x00' ∉ name.toList)
    (hsmall : Descriptor.largestChunk c < 2 ^ 32) (hline : line.Sound)
    (hwidth : Descriptor.width ≤ descriptorLimit) :
    (StoreError.smallestFile ≤ c.length → (Utf8.encode name).length ≤ nameWidth →
      .ofContent c ≠ ContentHash.zero → s.lookup (.ofContent c) = none →
        ∃ t, s.share disk path name = .ok (.ofContent name c, t)) ∧
    ∀ {d t}, s.share disk path name = .ok (d, t) → disk.Admits c.length →
      ∃ d', line.carry descriptorLimit (.fileDef d) = some (.fileDef d') ∧
        ∀ {s' t' e fetcherDisk disk' id}, Relay.Accepted s' t' d' e fetcherDisk disk' id →
        ∀ limit, Descriptor.largestChunk c + ChunkData.fixedWidth ≤ limit →
        ∀ rounds : List Round, (∀ k ∈ rounds, k.Sound) →
          ∃ n, exchanges limit d'.hash ⟨disk, t, fetcherDisk, t'⟩ rounds = some n ∧
            (∀ k : Round, k.Sound → ∃ outcome n' e₁ e₂,
              exchange limit d'.hash n k = some (outcome, n') ∧
              n.fetcher.lookup d'.hash = some e₁ ∧ n'.fetcher.lookup d'.hash = some e₂ ∧
              Advances c k.index outcome (e₁, n.fetcherDisk) (e₂, n'.fetcherDisk)) ∧
            ((∀ i, ∃ k ∈ rounds, k.index = i) → ∃ e', n.fetcher.lookup d'.hash = some e' ∧
              Complete d' c (disk'.content id) (e', n.fetcherDisk)) := by
  have hlt : c.length < 2 ^ 36 := by
    have hsum : c.length / 8 + c.length % 8 < 2 ^ 32 := hsmall
    omega
  have hoffset : 2 ^ 36 ≤ Disk.largestOffset := by decide
  refine ⟨fun hlarge hfits hz hl => hs.exists_share hread (by omega) hlarge hfits hz hl, ?_⟩
  intro d t hshare hadmits
  obtain ⟨rfl, hfits, hholds⟩ := hs.share hdisk hread hadmits hshare
  have hlen := (Descriptor.size_ofContent name (c := c) (by omega)).symm
  have hm := Descriptor.matches_ofContent name c
  refine ⟨.ofContent name c, hline.carry_fileDef hfits hname hwidth, ?_⟩
  intro s' t' e fetcherDisk disk' id haccepted limit hlimit rounds hrounds
  have ho := haccepted.opens
  have hpeer := haccepted.eq_ofPeer
  subst hpeer
  have hlinked : Linked (.ofContent name c) c (.ofPeer _ _) fetcherDisk []
      ⟨disk, t, fetcherDisk, t'⟩ :=
    ⟨hholds, haccepted.valid.add haccepted.add, haccepted.lookup, rfl, fun _ h => by cases h⟩
  obtain ⟨events, n, hrun, hn, hbrought⟩ := hlinked.exchanges hlen hm hsmall hlimit hrounds
  rw [List.nil_append] at hn
  refine ⟨n, hrun, ?_, ?_⟩
  · intro k hk
    obtain ⟨chunk, n', hstep, hcarries, hn'⟩ := hn.exchange hlen hm hsmall hlimit hk
    refine ⟨_, n', _, _, hstep, hn.lookup, hn'.lookup, ?_⟩
    rw [hn.disk, hn'.disk, Relay.run_append]
    exact advances_accept ho hlen hm rfl rfl hcarries
  · intro hall
    refine ⟨_, hn.lookup, ?_⟩
    rw [hn.disk]
    refine complete_run ho hlen hm hn.honest ?_
    intro i
    obtain ⟨k, hk, rfl⟩ := hall i
    exact hbrought k hk

/-- A connection that takes everything at once and is read in one piece. -/
def plainLine : Line := ⟨.unlimited, fun written => .ofSource ⟨[written], .closed⟩⟩

/-- A round over such connections. -/
def plainRound (i : ChunkIndex) : Round where
  index := i
  line := plainLine
  requestLimit := ChunkRequest.width
  returnEndpoint := ⟨⟨127, 0, 0, 1⟩, 9000⟩
  ttl := 5
  network := { Network.isolated with dial := fun address => .ok ⟨address, .unlimited⟩ }
  peers := .empty
  source := 0
  reader := plainLine.reader

theorem continues_plainLine : FrameReader.Continues plainLine.reader := fun _ => ⟨[], rfl⟩

theorem sound_plainLine : plainLine.Sound :=
  ⟨Sink.willing_unlimited, continues_plainLine⟩

theorem sound_plainRound (i : ChunkIndex) : (plainRound i).Sound where
  line := sound_plainLine
  requestLimit := Nat.le_refl _
  reaches := ⟨_, rfl, sound_plainLine.willing, rfl⟩
  continues := continues_plainLine

/-- A file of zeros is fetched, the last chunk first, and one chunk once more. -/
theorem share_transfers_zeros :
    let c := Bytes.zeros 512
    ∃ disk t d d' t' e disk' n n' e' outcome,
      disk.WellFormed ∧ disk.read "n" = .ok c ∧ disk.Admits c.length ∧
      (Store.empty "").share disk "n" "n" = .ok (d, t) ∧
      plainLine.carry Descriptor.width (.fileDef d) = some (.fileDef d') ∧
      Relay.Accepted (.empty "") t' d' e .empty disk' 0 ∧
      exchanges 88 d'.hash ⟨disk, t, .empty, t'⟩ (ChunkIndex.all.reverse.map plainRound) = some n ∧
      exchange 88 d'.hash n (plainRound 3) = some (outcome, n') ∧
      (outcome = .stored ∨ outcome = .alreadyVerified) ∧
      n.fetcher.lookup d'.hash = some e' ∧ e'.verify n.fetcherDisk = .all ∧
      (e'.save n.fetcherDisk).2.1.bytes? (e'.save n.fetcherDisk).2.2 = some c := by
  intro c
  have hs : (Descriptor.ofContent "n" c).size = 512 := by decide +kernel
  have hz : (Descriptor.ofContent "n" c).hash ≠ .zero := by
    rw [show Descriptor.hash _ = _ from Relay.ofContent_zeros]
    decide
  obtain ⟨t', disk', haccepted, hprior⟩ := Relay.accepted_of_name rfl hs hz
  have hdisk := haccepted.wellFormed_mapped
  obtain ⟨hle, hbound, -, -⟩ := Entry.mapFile_spec Disk.wellFormed_empty haccepted.mapFile
  have hadmits : disk'.Admits c.length := by
    refine Disk.Admits.mono (Disk.admits_empty ?_) hle
    rw [Bytes.length_zeros]
    decide
  have hread : disk'.read "n" = .ok c := hbound.read.trans (congrArg Except.ok hprior)
  have hlarge : Descriptor.largestChunk c = 64 := by
    rw [Descriptor.largestChunk, Bytes.length_zeros]
    rfl
  obtain ⟨hshares, htransfers⟩ := share_transfers (Store.valid_empty "") hdisk hread
    (by decide : '\x00' ∉ "n".toList) (by rw [hlarge]; decide) sound_plainLine (Nat.le_refl _)
  obtain ⟨t, hshare⟩ := hshares (by rw [Bytes.length_zeros]; decide) (by decide) hz
    (Store.lookup_empty _ _)
  obtain ⟨d', hcarry, hfetch⟩ := htransfers hshare hadmits
  have hd' : d' = .ofContent "n" c := by
    rw [sound_plainLine.carry_fileDef (by decide) (by decide) (Nat.le_refl _)] at hcarry
    cases hcarry
    rfl
  subst hd'
  obtain ⟨n, hrun, hstep, hcomplete⟩ := hfetch haccepted 88 (by rw [hlarge]; decide)
    (ChunkIndex.all.reverse.map plainRound) (by simpa using fun i _ => sound_plainRound i)
  obtain ⟨outcome, n', e₁, e₂, hexchange, -, -, hadvances⟩ := hstep _ (sound_plainRound 3)
  have hall (i : ChunkIndex) : plainRound i ∈ ChunkIndex.all.reverse.map plainRound :=
    List.mem_map_of_mem (List.mem_reverse.2 (VerifiedChunks.mem_chunkIndex_all i))
  obtain ⟨e', hlookup, hverify, hsaved⟩ := hcomplete fun i => ⟨plainRound i, hall i, rfl⟩
  rw [hprior] at hsaved
  have hfree := Relay.collisionFree_zeros hs fun _ h => absurd h List.not_mem_nil
  exact ⟨disk', t, _, _, t', _, disk', n, n', e', outcome, hdisk, hread, hadmits, hshare, hcarry,
    haccepted, hrun, hexchange, hadvances.outcome, hlookup, hverify, hsaved hfree⟩

end Transfer

end FileMesh
