import FileMesh.Node.Download
import FileMesh.Proofs.Malformed
import FileMesh.Proofs.Request
import FileMesh.Proofs.Wire.Decoded

/-!
# Which files can be downloaded

A holder declares the size of a chunk in 32 bits, and a node keeps only so many bytes of a payload.
A chunk gets from the one to the other if it is short enough for both. A node that is asked for a
file looks at its own limit, for the last chunk, which is the longest. So it refuses no file whose
chunks all get across, and it admits one whose chunks do not in a single case: the limit has room
for a last chunk whose size cannot be declared.
-/

namespace FileMesh

/-! ## A delivery that was cut -/

namespace Message

theorem wordAt_take {payload : Bytes} {i n : Nat} (h : i + 4 ≤ n) :
    wordAt (payload.take n) i = wordAt payload i := by
  rw [wordAt, wordAt, Bytes.slice, Bytes.slice, List.drop_take, List.take_take,
    Nat.min_eq_left (by omega)]

/-- A chunk of which the end is missing is refused. -/
theorem decodeData_take {c : ChunkData} (h : c.chunkIndex.toNat < chunkCount)
    (hsize : c.declaredSize.toNat = c.data.length) {limit : Nat}
    (hlt : limit < ChunkData.fixedWidth + c.data.length) : ∃ needed,
      decodeData ((encodeData c).take limit) = .error (.truncated .fileData needed limit) := by
  have hlen : ((encodeData c).take limit).length = limit := by
    rw [List.length_take, length_encodeData]
    exact Nat.min_eq_left hlt.le
  by_cases hfixed : limit < ChunkData.fixedWidth
  · refine ⟨ChunkData.fixedWidth, ?_⟩
    rw [decodeData, checkLength, hlen, if_pos hfixed]
    rfl
  · have hge : 24 ≤ limit := Nat.le_of_not_lt hfixed
    have hhash := c.hash.length_bytes
    have hindex : wordAt ((encodeData c).take limit) 16 = c.chunkIndex := by
      rw [wordAt_take (by omega), encodeData, List.append_assoc, List.append_assoc,
        wordAt_append hhash]
    have hprefix : (c.hash.bytes ++ Bytes.ofNatBE 4 c.chunkIndex.toNat).length = 20 := by
      rw [List.length_append, hhash, Bytes.length_ofNatBE]
    have hdeclared : wordAt ((encodeData c).take limit) 20 = c.declaredSize := by
      rw [wordAt_take (by omega), encodeData, List.append_assoc _ _ c.data, wordAt_append hprefix]
    refine ⟨ChunkData.fixedWidth + c.declaredSize.toNat, ?_⟩
    have hwhole : checkLength .fileData (ChunkData.fixedWidth + c.declaredSize.toNat)
        ((encodeData c).take limit) =
          .error (.truncated .fileData (ChunkData.fixedWidth + c.declaredSize.toNat) limit) := by
      rw [checkLength, hlen, hsize, if_pos hlt]
    simp only [decodeData, checkLength_of_le (hge.trans_eq hlen.symm), hindex,
      checkIndex_of_lt h, hdeclared, bind, Except.bind, hwhole]

end Message

namespace FrameReader

variable {r : FrameReader} {kind : MessageType} {payload rest : Bytes}

/-- What is read of a whole frame is what as much of its payload as is kept is decoded to. -/
theorem next_frame_eq (hlt : payload.length < 2 ^ 64)
    (h : r.unread = FrameHeader.frame kind payload ++ rest) (limit : Nat) :
    (r.next limit).1 = (Message.decode kind (payload.take limit)).mapError .protocol := by
  let f : Frame := ⟨FrameHeader.new kind (UInt64.ofNat payload.length), payload,
    length_header hlt⟩
  obtain ⟨r', -, hnext⟩ := next_of_whole (f := f) h limit
  have hinterpret : interpret f.header (f.payload.take limit) =
      Message.decode kind (payload.take limit) := by
    simp only [f, interpret, FrameHeader.messageType, FrameHeader.new, MessageType.ofByte_toByte]
    rfl
  rw [hnext, hinterpret]

end FrameReader

/-! ## Deliveries -/

namespace Relay

variable {r : ChunkRequest} {data : Bytes} {m : Message} {reader : FrameReader} {limit : Nat}

/-- The delivery of some bytes as the chunk that is asked for. -/
def packed (r : ChunkRequest) (data : Bytes) : ChunkData :=
  ⟨r.hash, r.chunkIndex, UInt32.ofNat data.length, data⟩

theorem delivery?_eq_some_iff : delivery? r data = some m ↔
    data.length ≤ largestDelivery ∧ m = .fileData (packed r data) := by
  rw [delivery?]
  split
  · rename_i h
    simp [Nat.not_le.2 h]
  · rename_i h
    simp [Nat.not_lt.1 h, eq_comm, packed]

theorem toNat_declaredSize_packed (r : ChunkRequest) (h : data.length ≤ largestDelivery) :
    (packed r data).declaredSize.toNat = data.length :=
  UInt32.toNat_ofNat_of_lt' (Nat.lt_succ_of_le h)

theorem length_encodeData_packed (r : ChunkRequest) (data : Bytes) :
    (Message.encodeData (packed r data)).length = 24 + data.length :=
  Message.length_encodeData _

/-- What is read of a delivery. -/
theorem next_packed (hlargest : data.length ≤ largestDelivery)
    (h : reader.unread = (Message.fileData (packed r data)).frame) (limit : Nat) :
    (reader.next limit).1 = (Message.decode .fileData
      ((Message.encodeData (packed r data)).take limit)).mapError .protocol := by
  have hlen := length_encodeData_packed r data
  have hsmall : largestDelivery < 2 ^ 63 := by decide
  rw [Message.frame_of_encode rfl, ← List.append_nil (FrameHeader.frame _ _)] at h
  exact FrameReader.next_frame_eq (by omega) h limit

/-- A delivery that is no longer than the limit is read as it was sent. -/
theorem next_delivery_of_le (hm : delivery? r data = some m) (hi : r.chunkIndex.toNat < chunkCount)
    (h : reader.unread = m.frame) (hle : ChunkData.fixedWidth + data.length ≤ limit) :
    (reader.next limit).1 = .ok m := by
  obtain ⟨hlargest, rfl⟩ := delivery?_eq_some_iff.1 hm
  have hlen := length_encodeData_packed r data
  have hdecode : Message.decodeData (Message.encodeData (packed r data)) = .ok (packed r data) :=
    Message.decodeData_encode hi (toNat_declaredSize_packed r hlargest)
  rw [next_packed hlargest h, List.take_of_length_le (hlen.trans_le hle), Message.decode, hdecode]
  rfl

/-- A delivery that is longer than the limit is not read. -/
theorem next_delivery_of_lt (hm : delivery? r data = some m) (hi : r.chunkIndex.toNat < chunkCount)
    (h : reader.unread = m.frame) (hlt : limit < ChunkData.fixedWidth + data.length) :
    ∃ needed, (reader.next limit).1 = .error (.protocol (.truncated .fileData needed limit)) := by
  obtain ⟨hlargest, rfl⟩ := delivery?_eq_some_iff.1 hm
  obtain ⟨needed, hdecode⟩ := Message.decodeData_take (c := packed r data) hi
    (toNat_declaredSize_packed r hlargest) hlt
  refine ⟨needed, ?_⟩
  rw [next_packed hlargest h, Message.decode, hdecode]
  rfl

end Relay

/-! ## The chunks of a holder -/

namespace Entry

variable {disk : Disk} {e : Entry} {i : ChunkIndex} {data : Bytes}

theorem length_rangeOf (f : FileContent) (r : ChunkRange) :
    (rangeOf f r).length = r.length.toNat := Bytes.length_resize _ _

/-- A chunk that can be read has the length of its range. -/
theorem length_readChunk (h : (e.readChunk disk i).1 = .ok data) :
    data.length = (e.descriptor.range i).length.toNat := by
  have hr : e.descriptor.chunkRange? i = some (e.descriptor.range i) :=
    Descriptor.chunkRange?_of_eq rfl
  simp only [readChunk, openChunk, hr, openFile] at h
  split at h
  · rename_i id hm
    simp only [Except.map, view, hm, Except.ok.injEq] at h
    rw [← h, length_rangeOf]
  · split at h
    · cases h
    · simp only [Except.map, view, Except.ok.injEq] at h
      rw [← h, length_rangeOf]

end Entry

namespace Descriptor

variable {d : Descriptor} {limit : Nat} {i : ChunkIndex}

/-- A request for the chunk can be answered with the bytes of a holder, and what is sent is read
back, of a payload of which `limit` bytes are kept. -/
def GetsAcross (d : Descriptor) (limit : Nat) (i : ChunkIndex) : Prop :=
  ∃ (r : ChunkRequest) (data : Bytes) (m : Message) (reader : FrameReader),
    r.chunkIndex.toNat = i.val ∧ data.length = (d.range i).length.toNat ∧
      Relay.delivery? r data = some m ∧ reader.unread = m.frame ∧ (reader.next limit).1 = .ok m

/-- A chunk gets across if its size can be declared and the frame has room for it. -/
theorem getsAcross_iff : d.GetsAcross limit i ↔
    (d.range i).length.toNat ≤ Relay.largestDelivery ∧
      ChunkData.fixedWidth + (d.range i).length.toNat ≤ limit := by
  have hindices : ∀ i : ChunkIndex, (UInt32.ofNat i.val).toNat = i.val := by decide
  constructor
  · rintro ⟨r, data, m, reader, hi, hdata, hm, hreader, hnext⟩
    rw [← hdata]
    refine ⟨(Relay.delivery?_eq_some_iff.1 hm).1, Nat.not_lt.1 fun hlt => ?_⟩
    obtain ⟨needed, hcut⟩ := Relay.next_delivery_of_lt hm (hi ▸ i.isLt) hreader hlt
    rw [hnext] at hcut
    cases hcut
  · rintro ⟨hlargest, hle⟩
    let r : ChunkRequest := ⟨d.hash, UInt32.ofNat i.val, default, 0⟩
    have hdata : (Bytes.zeros (d.range i).length.toNat).length = (d.range i).length.toNat :=
      Bytes.length_zeros _
    obtain ⟨m, hm⟩ : ∃ m, Relay.delivery? r (Bytes.zeros (d.range i).length.toNat) = some m :=
      ⟨_, Relay.delivery?_eq_some_iff.2 ⟨hdata.trans_le hlargest, rfl⟩⟩
    have hunread : (FrameReader.ofSource ⟨[m.frame], .closed⟩).unread = m.frame := by
      simp [FrameReader.unread, FrameReader.ofSource, Source.unread]
    refine ⟨r, _, m, .ofSource ⟨[m.frame], .closed⟩, hindices i, hdata, hm, hunread, ?_⟩
    exact Relay.next_delivery_of_le hm ((hindices i).trans_lt i.isLt) hunread
      (hdata.symm ▸ hle)

theorem length_range_le_last (d : Descriptor) (i : ChunkIndex) :
    (d.range i).length.toNat ≤ (d.range 7).length.toNat := by
  rcases Nat.lt_or_ge i.val 7 with hlt | hge
  · exact ChunkRange.length_le_length_of_lt d.size hlt
  · obtain rfl : i = 7 := Fin.ext (Nat.le_antisymm (Nat.le_of_lt_succ i.isLt) hge)
    exact Nat.le_refl _

/-- Every chunk gets across if the last one does. -/
theorem forall_getsAcross_iff : (∀ i, d.GetsAcross limit i) ↔ d.GetsAcross limit 7 := by
  refine ⟨fun h => h 7, fun h i => ?_⟩
  obtain ⟨hlargest, hle⟩ := getsAcross_iff.1 h
  have hlast := d.length_range_le_last i
  exact getsAcross_iff.2 ⟨by omega, by omega⟩

end Descriptor

/-- The length of the longest delivery is computed without a wrap-around. -/
theorem Download.toNat_deliveryLength (d : Descriptor) : (deliveryLength d).toNat =
    ChunkData.fixedWidth + (d.range 7).length.toNat := by
  have hsize := d.size.toNat_lt
  have hlen : (d.range 7).length.toNat = d.size.toNat - d.size.toNat / 8 * 7 := by
    rw [Descriptor.range, ChunkRange.toNat_length, ChunkRange.toNat_start, ChunkRange.toNat_stop]
    rfl
  have hfixed : (UInt64.ofNat ChunkData.fixedWidth).toNat = 24 := rfl
  rw [deliveryLength, UInt64.toNat_add, ← Descriptor.range, hfixed, Nat.add_comm]
  refine Nat.mod_eq_of_lt ?_
  show 24 + _ < _
  omega

/-! ## Holders -/

namespace Relay

variable {network : Network} {disk : Disk} {e : Entry} {r : ChunkRequest} {i : ChunkIndex}
  {data : Bytes}

/-- A holder that can read the chunk and reach the return endpoint sends the delivery, alone on its
connection, unless the chunk has none. -/
theorem answer_of_readChunk (hn : network.Reaches r.returnEndpoint)
    (hi : r.chunkIndex.toNat = i.val) (h : (e.readChunk disk i).1 = .ok data) :
    match delivery? r data with
    | none => (answer network disk e r).1 = .deliveryFailed
    | some m => ∃ connection, (answer network disk e r).1 = .delivered connection ∧
        connection.taken = m.frame := by
  obtain ⟨⟨result, e', disk'⟩, hread⟩ : ∃ x, e.readChunk disk i = x := ⟨_, rfl⟩
  rw [hread] at h
  obtain rfl : result = .ok data := h
  cases hd : delivery? r data with
  | none => simp only [answer_of_ok (hi ▸ hread), hd, Option.bind_none]
  | some m =>
    obtain ⟨-, rfl⟩ := delivery?_eq_some_iff.1 hd
    obtain ⟨connection, hsend, htaken⟩ :=
      sendAlone_of_reaches hn (m := .fileData (packed r data)) rfl
    refine ⟨connection, ?_, htaken⟩
    simp only [answer_of_ok (hi ▸ hread), hd, Option.bind_some, hsend]

/-- A holder that can read the chunk and reach the return endpoint sends nothing if the size cannot
be declared. Otherwise it sends the chunk, which is read just when it gets across. -/
theorem answer_getsAcross (hn : network.Reaches r.returnEndpoint)
    (hi : r.chunkIndex.toNat = i.val) (h : (e.readChunk disk i).1 = .ok data) (limit : Nat) :
    (largestDelivery < (e.descriptor.range i).length.toNat →
      (answer network disk e r).1 = .deliveryFailed) ∧
    ((e.descriptor.range i).length.toNat ≤ largestDelivery → ∃ connection chunk,
      (answer network disk e r).1 = .delivered connection ∧
        e.descriptor.Fits i chunk ∧ chunk.hash = r.hash ∧ chunk.data = data ∧
        ∀ reader : FrameReader, reader.unread = connection.taken →
          ((reader.next limit).1 = .ok (.fileData chunk) ↔ e.descriptor.GetsAcross limit i)) := by
  have hlen := Entry.length_readChunk h
  have hanswer := answer_of_readChunk hn hi h
  rw [← hlen]
  constructor
  · intro hlarge
    rw [delivery?, if_pos hlarge] at hanswer
    exact hanswer
  · intro hle
    have hm : delivery? r data = some (.fileData (packed r data)) :=
      delivery?_eq_some_iff.2 ⟨hle, rfl⟩
    rw [hm] at hanswer
    obtain ⟨connection, hdelivered, htaken⟩ := hanswer
    refine ⟨connection, packed r data, hdelivered,
      ⟨hi, (toNat_declaredSize_packed r hle).trans hlen, hlen⟩, rfl, rfl, ?_⟩
    intro reader hreader
    rw [htaken] at hreader
    constructor
    · exact fun hnext => ⟨r, data, _, reader, hi, hlen, hm, hreader, hnext⟩
    · intro hacross
      obtain ⟨-, hroom⟩ := Descriptor.getsAcross_iff.1 hacross
      exact next_delivery_of_le hm (hi ▸ i.isLt) hreader (hlen ▸ hroom)

end Relay

/-! ## Admission -/

/-- The only entry of a store is found by its name. -/
theorem Store.findByName_insert_empty {downloadDir : String} {e : Entry} {t : Store}
    (h : (empty downloadDir).insert e = .ok t) : t.findByName e.descriptor.name = some e := by
  have hp := ((valid_empty downloadDir).perm_insert h).2
  rw [empty, Table.empty, Table.toList_withCapacity, List.perm_singleton] at hp
  rw [findByName, entries, Table.values, hp]
  simp

namespace Node

variable {disk : Disk} {n : Node} {name : String} {e : Entry}

theorem register_ne_tooLarge (n : Node) (hash : ContentHash) :
    n.register hash ≠ .error .tooLarge := by
  rw [register]
  split <;> simp

/-- A download of a file with chunks missing is refused as too large by the length of the longest
delivery. -/
theorem requestDownload_tooLarge_iff (hf : n.store.findByName name = some e)
    (hi : (e.verify disk).isComplete = false) :
    (n.requestDownload disk name).1 = .error .tooLarge ↔
      n.config.maxFrameBytes.toNat <
        ChunkData.fixedWidth + (e.descriptor.range 7).length.toNat := by
  rw [← Download.toNat_deliveryLength, ← UInt64.lt_iff_toNat_lt]
  by_cases hlt : n.config.maxFrameBytes < Download.deliveryLength e.descriptor
  · have hcandidate : n.candidate disk name = .error .tooLarge := by
      simp only [candidate, hf, hi, hlt, Bool.false_eq_true, if_false, if_true]
    rw [requestDownload, hcandidate]
    exact iff_of_true rfl hlt
  · have hcandidate : n.candidate disk name = .ok e := by
      simp only [candidate, hf, hi, hlt, Bool.false_eq_true, if_false]
    have hregister := n.register_ne_tooLarge e.descriptor.hash
    rw [requestDownload, hcandidate]
    refine iff_of_false ?_ hlt
    cases hresult : n.register e.descriptor.hash with
    | ok x => simp [Bind.bind, Except.bind, hresult]
    | error cause =>
      rw [hresult] at hregister
      simpa [Bind.bind, Except.bind, hresult] using hregister

/-- Ask a node for a file that it knows and that is not complete.

It answers that the file is too large just when the delivery of some chunk is longer than its limit.
A chunk gets across just when its delivery is no longer than the limit and its size can be declared
in 32 bits. So the answer tells whether some chunk does not get across, unless the limit has room
for a last chunk whose size cannot be declared: then the download is admitted, and this chunk never
comes.

A holder that can read a chunk and reach the node sends nothing if the size cannot be declared.
Otherwise it sends one message, which has the chunk, and the node reads this message just when the
chunk gets across. -/
theorem admission_iff (hf : n.store.findByName name = some e)
    (hi : (e.verify disk).isComplete = false) :
    let d := e.descriptor
    let limit := n.config.maxFrameBytes.toNat
    let refused := (n.requestDownload disk name).1 = .error .tooLarge
    (refused ↔ ∃ i, limit < ChunkData.fixedWidth + (d.range i).length.toNat) ∧
    (∀ i, d.GetsAcross limit i ↔ (d.range i).length.toNat ≤ Relay.largestDelivery ∧
      ChunkData.fixedWidth + (d.range i).length.toNat ≤ limit) ∧
    ((refused ↔ ∃ i, ¬ d.GetsAcross limit i) ↔
      ¬ (Relay.largestDelivery < (d.range 7).length.toNat ∧
        ChunkData.fixedWidth + (d.range 7).length.toNat ≤ limit)) ∧
    ∀ (network : Network) (disk' : Disk) (holder : Entry) (r : ChunkRequest) (i : ChunkIndex)
      (data : Bytes), holder.descriptor = d → r.chunkIndex.toNat = i.val →
      (holder.readChunk disk' i).1 = .ok data → network.Reaches r.returnEndpoint →
      (Relay.largestDelivery < (d.range i).length.toNat →
        (Relay.answer network disk' holder r).1 = .deliveryFailed) ∧
      ((d.range i).length.toNat ≤ Relay.largestDelivery → ∃ connection chunk,
        (Relay.answer network disk' holder r).1 = .delivered connection ∧
          d.Fits i chunk ∧ chunk.hash = r.hash ∧ chunk.data = data ∧
          ∀ reader : FrameReader, reader.unread = connection.taken →
            ((reader.next limit).1 = .ok (.fileData chunk) ↔ d.GetsAcross limit i)) := by
  intro d limit refused
  have hrefused : refused ↔ limit < ChunkData.fixedWidth + (d.range 7).length.toNat :=
    requestDownload_tooLarge_iff hf hi
  refine ⟨?_, fun i => Descriptor.getsAcross_iff, ?_, ?_⟩
  · refine hrefused.trans ⟨fun h => ⟨7, h⟩, ?_⟩
    rintro ⟨i, hlt⟩
    exact hlt.trans_le (Nat.add_le_add_left (d.length_range_le_last i) _)
  · rw [← not_forall, Descriptor.forall_getsAcross_iff, Descriptor.getsAcross_iff, hrefused]
    omega
  · intro network disk' holder r i data hd hindex hread hn
    rw [← hd]
    exact Relay.answer_getsAcross hn hindex hread limit

/-- A node that keeps 8 GiB of a payload admits a file of 32 GiB, although the last chunk cannot be
sent. -/
theorem admission_iff_huge : ∃ (n : Node) (e : Entry),
    n.config.maxFrameBytes = 8589934592 ∧ e.descriptor.size = 34359738368 ∧
    n.store.findByName "huge.bin" = some e ∧ (e.verify .empty).isComplete = false ∧
    (n.requestDownload .empty "huge.bin").1 ≠ .error .tooLarge ∧
    ¬ e.descriptor.GetsAcross n.config.maxFrameBytes.toNat 7 ∧
    ¬ ((n.requestDownload .empty "huge.bin").1 = .error .tooLarge ↔
      ∃ i, ¬ e.descriptor.GetsAcross n.config.maxFrameBytes.toNat i) := by
  let d : Descriptor :=
    ⟨"huge.bin", .ofBytes (List.replicate 16 15), .replicate 8 .zero, 34359738368⟩
  let e : Entry := .ofPeer d "dl/huge.bin"
  obtain ⟨s, hs⟩ : ∃ s, (Store.empty "dl").insert e = .ok s :=
    (Store.valid_empty "dl").exists_insert (by decide +kernel) (by decide +kernel)
      (Store.lookup_empty _ _)
  let n : Node := { Node.new { Config.standard with maxFrameBytes := 8589934592 } with store := s }
  have hf : n.store.findByName "huge.bin" = some e := Store.findByName_insert_empty hs
  have hi : (e.verify .empty).isComplete = false := rfl
  have hlast : (d.range 7).length.toNat = 2 ^ 32 := by decide +kernel
  have hlimit : n.config.maxFrameBytes.toNat = 2 ^ 33 := rfl
  have hlargest : Relay.largestDelivery = 2 ^ 32 - 1 := rfl
  obtain ⟨hrefused, hacross, hagree, -⟩ := admission_iff hf hi
  refine ⟨n, e, rfl, rfl, hf, hi, ?_, ?_, ?_⟩
  · rw [Ne, requestDownload_tooLarge_iff hf hi]
    show ¬ _ < 24 + (d.range 7).length.toNat
    rw [hlast, hlimit]
    decide
  · rw [hacross 7]
    show ¬ ((d.range 7).length.toNat ≤ _ ∧ _)
    omega
  · rw [hagree, not_not]
    show _ < (d.range 7).length.toNat ∧ 24 + (d.range 7).length.toNat ≤ _
    omega

end Node

end FileMesh
