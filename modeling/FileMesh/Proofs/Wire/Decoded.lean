import FileMesh.Proofs.Disk.Tree
import FileMesh.Proofs.Wire
import Mathlib.Data.List.Induction

/-!
# What decoding accepts

Only well-formed messages are decoded, so a message that was taken off the wire can be passed on as
often as one likes. Encoding it gives the bytes that it was decoded from, but for the padding of a
name: decoding does not look at what follows the first NUL, and encoding writes zeros there.
-/

namespace FileMesh

/-! ## Words -/

namespace Bytes

theorem toNatBE_lt (b : Bytes) : toNatBE b < 256 ^ b.length := by
  induction b using List.reverseRecOn with
  | nil => decide
  | append_singleton b x ih =>
    have hx := x.toNat_lt
    rw [toNatBE_append_singleton, List.length_append, List.length_singleton, Nat.pow_succ']
    omega

/-- Writing a value as a word of the length it was read from gives the bytes back. -/
theorem ofNatBE_toNatBE (b : Bytes) : ofNatBE b.length (toNatBE b) = b := by
  induction b using List.reverseRecOn with
  | nil => rfl
  | append_singleton b x ih =>
    have hx := x.toNat_lt
    have hdiv : (256 * toNatBE b + x.toNat) / 256 = toNatBE b := by omega
    have hmod : (256 * toNatBE b + x.toNat) % 256 = x.toNat := by omega
    rw [toNatBE_append_singleton, List.length_append, List.length_singleton, ofNatBE_succ, hdiv,
      hmod, ih, UInt8.ofNat_toNat]

theorem slice_zero (b : Bytes) (n : Nat) : b.slice 0 n = b.take n := by
  rw [slice, List.drop_zero]

/-- Slices that lie side by side are one slice. -/
theorem slice_append_slice (b : Bytes) (i m n : Nat) :
    b.slice i m ++ b.slice (i + m) n = b.slice i (m + n) := by
  rw [slice, slice, slice, ← List.drop_drop, ← List.take_add]

theorem flatten_ofFn_slice (b : Bytes) (start w n : Nat) :
    (List.ofFn fun i : Fin n => b.slice (start + w * i.val) w).flatten = b.slice start (w * n) := by
  induction n with
  | zero => simp [slice]
  | succ n ih =>
    rw [List.ofFn_succ', List.concat_eq_append, List.flatten_append, List.flatten_singleton]
    simp only [Fin.val_castSucc, Fin.val_last]
    rw [ih, slice_append_slice, Nat.mul_succ]

theorem slice_one {b : Bytes} {i : Nat} (h : i < b.length) : b.slice i 1 = [b.getD i 0] := by
  rw [slice, List.drop_eq_getElem_cons h, List.getD_eq_getElem _ _ h]
  rfl

theorem toNatBE_slice_lt (b : Bytes) (i w : Nat) : toNatBE (b.slice i w) < 256 ^ w := by
  have hlen : (b.slice i w).length ≤ w := by
    rw [length_slice]
    exact Nat.min_le_left _ _
  exact Nat.lt_of_lt_of_le (toNatBE_lt _) (Nat.pow_le_pow_right (by decide) hlen)

theorem ofNatBE_toNatBE_slice {b : Bytes} {i w : Nat} (h : i + w ≤ b.length) :
    ofNatBE w (toNatBE (b.slice i w)) = b.slice i w := by
  have hlen : (b.slice i w).length = w := by
    rw [length_slice]
    omega
  have hback := ofNatBE_toNatBE (b.slice i w)
  rwa [hlen] at hback

end Bytes

theorem ContentHash.bytes_ofBytes_slice {b : Bytes} {i : Nat} (h : i + 16 ≤ b.length) :
    (ofBytes (b.slice i 16)).bytes = b.slice i 16 :=
  bytes_ofBytes (by rw [Bytes.length_slice]; omega)

/-! ## Descriptors -/

namespace Descriptor

variable {b : Bytes} {d : Descriptor}

/-- Only zeros follow the first NUL of the name field. -/
def Padded (b : Bytes) : Prop := ∀ x ∈ (b.take nameWidth).dropWhile (· != 0), x = 0

/-- The bytes of a descriptor with zeros behind the name. -/
def cleared (b : Bytes) : Bytes :=
  let name := nameField (b.take nameWidth)
  name ++ Bytes.zeros (nameWidth - name.length) ++ b.drop nameWidth

theorem length_nameField_le (b : Bytes) : (nameField (b.take nameWidth)).length ≤ nameWidth :=
  (List.takeWhile_sublist _).length_le.trans (List.length_take_le _ _)

theorem length_cleared (h : nameWidth ≤ b.length) : (cleared b).length = b.length := by
  have hle := length_nameField_le b
  simp only [cleared, List.length_append, Bytes.length_zeros, List.length_drop]
  omega

/-- Clearing the padding changes nothing just when it is clear. -/
theorem cleared_eq_self_iff (h : nameWidth ≤ b.length) : cleared b = b ↔ Padded b := by
  have hfield : nameField (b.take nameWidth) ++ (b.take nameWidth).dropWhile (· != 0) =
      b.take nameWidth := List.takeWhile_append_dropWhile
  have hlen := congrArg List.length hfield
  rw [List.length_append, List.length_take, Nat.min_eq_left h] at hlen
  have hsplit : b = nameField (b.take nameWidth) ++ (b.take nameWidth).dropWhile (· != 0) ++
      b.drop nameWidth := by
    rw [hfield, List.take_append_drop]
  have hcount : nameWidth - (nameField (b.take nameWidth)).length =
      ((b.take nameWidth).dropWhile (· != 0)).length := by omega
  rw [cleared, hcount]
  conv_lhs => rhs; rw [hsplit]
  rw [List.append_left_inj, List.append_right_inj, eq_comm, Bytes.zeros, List.eq_replicate_iff,
    and_iff_right rfl]
  rfl

theorem nameWidth_le_length_take (h : width ≤ b.length) :
    nameWidth ≤ (b.take width).length := by
  rw [List.length_take_of_le h]
  decide

theorem cleared_take_eq_iff (h : width ≤ b.length) :
    cleared (b.take width) = b.take width ↔ Padded b := by
  rw [cleared_eq_self_iff (nameWidth_le_length_take h), Padded, Padded, List.take_take,
    Nat.min_eq_left (by decide)]

theorem decode_eq_ok_iff : decode b = .ok d ↔
    ∃ name, Utf8.decode (nameField (b.take nameWidth)) = .ok name ∧ d = {
      name
      hash := .ofBytes (b.slice 32 16)
      chunkHashes := .ofFn fun i => .ofBytes (b.slice (48 + 16 * i.val) 16)
      size := UInt64.ofNat (Bytes.toNatBE (b.slice 176 8)) } := by
  rw [decode, Bytes.slice_zero]
  cases Utf8.decode (nameField (b.take nameWidth)) with
  | error validUpTo => simp
  | ok name => simp [eq_comm]

/-- A name that was decoded fits its field and has no NUL. -/
theorem name_of_decode (h : decode b = .ok d) :
    d.nameLength ≤ nameWidth ∧ '\x00' ∉ d.name.toList := by
  obtain ⟨name, hname, rfl⟩ := decode_eq_ok_iff.1 h
  have hfield := Utf8.encode_of_decode hname
  refine ⟨?_, fun h0 => ?_⟩
  · rw [nameLength, hfield]
    exact length_nameField_le b
  · rw [← Utf8.zero_mem_encode_iff, hfield] at h0
    simpa using List.mem_takeWhile_imp h0

theorem flatMap_chunkHashes (h : 176 ≤ b.length) :
    ((Vector.ofFn fun i : ChunkIndex => ContentHash.ofBytes
      (b.slice (48 + 16 * i.val) 16)).toList.flatMap ContentHash.bytes) = b.slice 48 128 := by
  have hbytes : (ContentHash.bytes ∘ fun i : ChunkIndex => ContentHash.ofBytes
      (b.slice (48 + 16 * i.val) 16)) = fun i => b.slice (48 + 16 * i.val) 16 :=
    funext fun i => ContentHash.bytes_ofBytes_slice (by have hi : i.val < 8 := i.isLt; omega)
  rw [Vector.toList_ofFn, List.flatMap_def, List.map_ofFn, hbytes]
  exact b.flatten_ofFn_slice 48 16 chunkCount

/-- Encoding a descriptor that was decoded gives its bytes with clear padding. -/
theorem encode_of_decode (h : decode b = .ok d) (hlen : width ≤ b.length) :
    d.encode = .ok (cleared (b.take width)) := by
  have hlen : 184 ≤ b.length := hlen
  rw [encode_of_le (name_of_decode h).1]
  obtain ⟨name, hname, rfl⟩ := decode_eq_ok_iff.1 h
  have hfield := Utf8.encode_of_decode hname
  have hsize : (UInt64.ofNat (Bytes.toNatBE (b.slice 176 8))).toNat =
      Bytes.toNatBE (b.slice 176 8) := by
    rw [UInt64.toNat_ofNat']
    exact Nat.mod_eq_of_lt (Bytes.toNatBE_slice_lt b 176 8)
  have hrest : (b.take width).drop nameWidth = b.slice 32 152 := List.drop_take
  rw [nameLength, hfield, flatMap_chunkHashes (by omega), hsize,
    ContentHash.bytes_ofBytes_slice (by omega), Bytes.ofNatBE_toNatBE_slice (by omega),
    List.append_assoc, List.append_assoc, List.append_assoc, Bytes.slice_append_slice,
    Bytes.slice_append_slice, cleared, hrest, List.take_take, Nat.min_eq_left (by decide)]
  simp only [List.append_assoc]

end Descriptor

/-! ## Endpoints -/

theorem Endpoint.encode_decode {b : Bytes} (h : width ≤ b.length) :
    (decode b).encode = b.take width := by
  have h : 6 ≤ b.length := h
  have hoctets : [b.getD 0 0, b.getD 1 0, b.getD 2 0, b.getD 3 0] = b.slice 0 4 := by
    rw [← Bytes.slice_append_slice b 0 1 3, ← Bytes.slice_append_slice b 1 1 2,
      ← Bytes.slice_append_slice b 2 1 1, Bytes.slice_one (by omega), Bytes.slice_one (by omega),
      Bytes.slice_one (by omega), Bytes.slice_one (by omega)]
    rfl
  have hport : (UInt16.ofNat (Bytes.toNatBE (b.slice 4 2))).toNat =
      Bytes.toNatBE (b.slice 4 2) := by
    rw [UInt16.toNat_ofNat']
    exact Nat.mod_eq_of_lt (Bytes.toNatBE_slice_lt b 4 2)
  have hback : Bytes.ofNatBE 2 (Bytes.toNatBE (b.slice 4 2)) = b.slice 4 2 :=
    Bytes.ofNatBE_toNatBE_slice h
  have hsplit : b.take width = b.slice 0 4 ++ b.slice 4 2 := by
    rw [Bytes.slice_append_slice b 0 4 2, Bytes.slice_zero]
  rw [hsplit, ← hoctets, decode, encode, hport, hback]
  rfl

/-! ## Messages -/

namespace Message

variable {kind : MessageType} {payload : Bytes} {m : Message}

theorem checkIndex_eq_ok_iff {index j : UInt32} :
    checkIndex index = .ok j ↔ index.toNat < chunkCount ∧ j = index := by
  rw [checkIndex]
  split
  · rename_i h
    simp [h, eq_comm]
  · rename_i h
    simp [h]

theorem checkLength_eq_ok_iff {needed : Nat} :
    checkLength kind needed payload = .ok () ↔ needed ≤ payload.length := by
  rw [checkLength]
  split
  · rename_i h
    simp [Nat.not_le.2 h]
  · rename_i h
    simp [Nat.not_lt.1 h]

theorem ofNatBE_wordAt {i : Nat} (h : i + 4 ≤ payload.length) :
    Bytes.ofNatBE 4 (wordAt payload i).toNat = payload.slice i 4 := by
  have hword : (wordAt payload i).toNat = Bytes.toNatBE (payload.slice i 4) := by
    rw [wordAt, UInt32.toNat_ofNat']
    exact Nat.mod_eq_of_lt (Bytes.toNatBE_slice_lt payload i 4)
  rw [hword, Bytes.ofNatBE_toNatBE_slice h]

/-- A request that was decoded asks for a chunk that there is, and its encoding is what was read. -/
theorem encode_of_decodeRequest {r : ChunkRequest} (h : decodeRequest payload = .ok r) :
    r.chunkIndex.toNat < chunkCount ∧ ChunkRequest.width ≤ payload.length ∧
      encodeRequest r = payload.take ChunkRequest.width := by
  obtain ⟨_, hlen, h⟩ := Except.bind_eq_ok_iff.1 h
  have hlen : 28 ≤ payload.length := checkLength_eq_ok_iff.1 hlen
  dsimp only at h
  split at h
  · cases h
  · rename_i haddress
    obtain ⟨index, hindex, h⟩ := Except.bind_eq_ok_iff.1 h
    obtain ⟨hlt, rfl⟩ := checkIndex_eq_ok_iff.1 hindex
    cases h
    have hwidth : UInt8.ofNat Endpoint.width = payload.getD 26 0 := by
      rw [← not_not.1 haddress, UInt8.ofNat_toNat]
    have hendpoint : (Endpoint.decode (payload.slice 20 6)).encode = payload.slice 20 6 := by
      have hsix : (payload.slice 20 6).length = 6 := by
        rw [Bytes.length_slice]
        omega
      rw [Endpoint.encode_decode hsix.ge, List.take_of_length_le hsix.le]
    have htail : [payload.getD 26 0, payload.getD 27 0] = payload.slice 26 2 := by
      rw [← Bytes.slice_append_slice payload 26 1 1, Bytes.slice_one (by omega),
        Bytes.slice_one (by omega)]
      rfl
    refine ⟨hlt, hlen, ?_⟩
    rw [encodeRequest, ContentHash.bytes_ofBytes_slice (by omega), ofNatBE_wordAt (by omega),
      hendpoint, hwidth, htail, Bytes.slice_append_slice payload 0 16 4,
      Bytes.slice_append_slice payload 0 20 6, Bytes.slice_append_slice payload 0 26 2,
      Bytes.slice_zero]

/-- A chunk that was decoded has its declared size, and its encoding is what was read. -/
theorem encode_of_decodeData {c : ChunkData} (h : decodeData payload = .ok c) :
    c.chunkIndex.toNat < chunkCount ∧ c.declaredSize.toNat = c.data.length ∧
      ChunkData.fixedWidth + c.declaredSize.toNat ≤ payload.length ∧
      encodeData c = payload.take (ChunkData.fixedWidth + c.declaredSize.toNat) := by
  obtain ⟨_, hfixed, h⟩ := Except.bind_eq_ok_iff.1 h
  obtain ⟨index, hindex, h⟩ := Except.bind_eq_ok_iff.1 h
  obtain ⟨hlt, rfl⟩ := checkIndex_eq_ok_iff.1 hindex
  obtain ⟨_, hwhole, h⟩ := Except.bind_eq_ok_iff.1 h
  have hfixed : 24 ≤ payload.length := checkLength_eq_ok_iff.1 hfixed
  have hwhole : 24 + (wordAt payload 20).toNat ≤ payload.length :=
    checkLength_eq_ok_iff.1 hwhole
  cases h
  refine ⟨hlt, ?_, hwhole, ?_⟩
  · show (wordAt payload 20).toNat = (payload.slice 24 (wordAt payload 20).toNat).length
    rw [Bytes.length_slice]
    omega
  · rw [encodeData, ContentHash.bytes_ofBytes_slice (by omega), ofNatBE_wordAt (by omega),
      ofNatBE_wordAt (by omega), Bytes.slice_append_slice payload 0 16 4,
      Bytes.slice_append_slice payload 0 20 4, Bytes.slice_append_slice payload 0 24,
      Bytes.slice_zero]

/-- The number of bytes that a message takes on the wire. -/
def width : Message → Nat
  | fileDef _ => Descriptor.width
  | requestFileData _ => ChunkRequest.width
  | fileData c => ChunkData.fixedWidth + c.declaredSize.toNat
  | requestAddrSelf => 0
  | addrSelf _ => Endpoint.width

/-- What encoding gives of the payload that a message was decoded from. -/
def rewritten (m : Message) (payload : Bytes) : Bytes :=
  match m with
  | fileDef _ => Descriptor.cleared (payload.take Descriptor.width)
  | m => payload.take m.width

/-- A message that was decoded has the type of its frame, is well-formed and fits the payload, and
encoding it writes the payload again. -/
theorem encode_of_decode (h : decode kind payload = .ok m) : m.type = kind ∧ m.WellFormed ∧
    m.width ≤ payload.length ∧ m.encode = .ok (m.rewritten payload) := by
  cases kind with
  | fileDef =>
    obtain ⟨_, hlen, h⟩ := Except.bind_eq_ok_iff.1 h
    obtain ⟨d, hd, h⟩ := Except.bind_eq_ok_iff.1 h
    cases h
    have hlen := checkLength_eq_ok_iff.1 hlen
    exact ⟨rfl, Descriptor.name_of_decode hd, hlen, Descriptor.encode_of_decode hd hlen⟩
  | requestFileData =>
    obtain ⟨r, hr, h⟩ := Except.bind_eq_ok_iff.1 h
    cases h
    obtain ⟨hindex, hlen, hencode⟩ := encode_of_decodeRequest hr
    exact ⟨rfl, hindex, hlen, congrArg _ hencode⟩
  | fileData =>
    obtain ⟨c, hc, h⟩ := Except.bind_eq_ok_iff.1 h
    cases h
    obtain ⟨hindex, hdeclared, hlen, hencode⟩ := encode_of_decodeData hc
    exact ⟨rfl, ⟨hindex, hdeclared⟩, hlen, congrArg _ hencode⟩
  | requestAddrSelf =>
    cases h
    exact ⟨rfl, trivial, Nat.zero_le _, rfl⟩
  | addrSelf =>
    obtain ⟨_, hlen, h⟩ := Except.bind_eq_ok_iff.1 h
    cases h
    have hlen := checkLength_eq_ok_iff.1 hlen
    exact ⟨rfl, trivial, hlen, congrArg _ (Endpoint.encode_decode hlen)⟩

/-! ### Hops -/

/-- A message as the node reads it that it is sent to. -/
def hop (m : Message) : Except WireError Message := do
  let payload ← m.encode
  decode m.type payload

/-- A message as it is read after `n` hops. -/
def hops : Nat → Message → Except WireError Message
  | 0, m => .ok m
  | n + 1, m => do
    let read ← m.hop
    hops n read

theorem hop_eq_ok_iff : m.hop = .ok m ↔
    ∃ payload, m.encode = .ok payload ∧ decode m.type payload = .ok m :=
  Except.bind_eq_ok_iff

/-- A message survives a hop just when it is well-formed. -/
theorem hop_eq_self_iff : m.hop = .ok m ↔ m.WellFormed := by
  refine ⟨fun h => ?_, fun h => hop_eq_ok_iff.2 (decode_encode h)⟩
  obtain ⟨payload, _, hdecode⟩ := hop_eq_ok_iff.1 h
  exact (encode_of_decode hdecode).2.1

theorem hops_eq_self (h : m.WellFormed) (n : Nat) : hops n m = .ok m := by
  induction n with
  | zero => rfl
  | succ n ih => exact Except.bind_eq_ok_iff.2 ⟨m, hop_eq_self_iff.2 h, ih⟩

/-- The messages that survive the wire are the well-formed ones, and decoding gives no others: what
was taken off the wire stays as it is over any number of hops. -/
theorem survives_iff_wellFormed :
    (∀ m : Message, (∃ payload, m.encode = .ok payload ∧ decode m.type payload = .ok m) ↔
      m.WellFormed) ∧
    ∀ kind payload m, decode kind payload = .ok m →
      m.type = kind ∧ m.WellFormed ∧ ∀ n, hops n m = .ok m := by
  refine ⟨fun m => hop_eq_ok_iff.symm.trans hop_eq_self_iff, fun kind payload m h => ?_⟩
  obtain ⟨hkind, hwf, _⟩ := encode_of_decode h
  exact ⟨hkind, hwf, hops_eq_self hwf⟩

/-- Two bytes of chunk 3, read off a payload with a byte too many. -/
theorem survives_fileData :
    decode .fileData (Bytes.zeros 16 ++ [0, 0, 0, 3, 0, 0, 0, 2, 7, 8, 9]) =
      .ok (fileData ⟨.zero, 3, 2, [7, 8]⟩) ∧
    (fileData ⟨.zero, 3, 2, [7, 8]⟩).WellFormed ∧
    hops 2 (fileData ⟨.zero, 3, 2, [7, 8]⟩) = .ok (fileData ⟨.zero, 3, 2, [7, 8]⟩) := by
  have hdecode : decode .fileData (Bytes.zeros 16 ++ [0, 0, 0, 3, 0, 0, 0, 2, 7, 8, 9]) =
      .ok (fileData ⟨.zero, 3, 2, [7, 8]⟩) := rfl
  obtain ⟨_, hwf, hhops⟩ := survives_iff_wellFormed.2 _ _ _ hdecode
  exact ⟨hdecode, hwf, hhops 2⟩

/-! ### Bytes -/

theorem rewritten_of_type_ne (h : m.type ≠ .fileDef) :
    m.rewritten payload = payload.take m.width := by
  cases m with
  | fileDef d => exact absurd rfl h
  | requestFileData r => rfl
  | fileData c => rfl
  | requestAddrSelf => rfl
  | addrSelf e => rfl

theorem rewritten_of_type_eq (h : m.type = .fileDef) : m.width = Descriptor.width ∧
    m.rewritten payload = Descriptor.cleared (payload.take Descriptor.width) := by
  cases m with
  | fileDef d => exact ⟨rfl, rfl⟩
  | requestFileData r => cases h
  | fileData c => cases h
  | requestAddrSelf => cases h
  | addrSelf e => cases h

theorem length_rewritten (h : m.width ≤ payload.length) :
    (m.rewritten payload).length = m.width := by
  by_cases htype : m.type = .fileDef
  · obtain ⟨hwidth, hrewritten⟩ := rewritten_of_type_eq htype
    rw [hwidth] at h
    rw [hrewritten, hwidth, Descriptor.length_cleared (Descriptor.nameWidth_le_length_take h),
      List.length_take_of_le h]
  · rw [rewritten_of_type_ne htype, List.length_take_of_le h]

/-- Encoding a message that was decoded gives as many bytes as its format takes. These are the
leading bytes of the payload unless the message is a descriptor and its name field has more than
zeros behind the first NUL, which are zeros afterwards. -/
theorem reencoding_eq_take_iff (payload : Bytes) :
    (∀ kind m, decode kind payload = .ok m →
      m.width ≤ payload.length ∧ ∃ b, m.encode = .ok b ∧ b.length = m.width ∧
        (b = payload.take m.width ↔ (kind = .fileDef → Descriptor.Padded payload)) ∧
        (kind = .fileDef → b = Descriptor.cleared (payload.take m.width))) ∧
    ∀ d, payload.length = Descriptor.width → Descriptor.decode payload = .ok d →
      (d.encode = .ok payload ↔ Descriptor.Padded payload) := by
  refine ⟨fun kind m h => ?_, fun d hlen h => ?_⟩
  · obtain ⟨rfl, _, hlen, hencode⟩ := encode_of_decode h
    refine ⟨hlen, _, hencode, length_rewritten hlen, ?_, fun htype => ?_⟩
    · by_cases htype : m.type = .fileDef
      · obtain ⟨hwidth, hrewritten⟩ := rewritten_of_type_eq htype
        rw [hwidth] at hlen ⊢
        rw [hrewritten, Descriptor.cleared_take_eq_iff hlen, imp_iff_right htype]
      · exact iff_of_true (rewritten_of_type_ne htype) fun h => absurd h htype
    · obtain ⟨hwidth, hrewritten⟩ := rewritten_of_type_eq htype
      rw [hwidth, hrewritten]
  · rw [Descriptor.encode_of_decode h hlen.ge, ← Descriptor.cleared_take_eq_iff hlen.ge,
      List.take_of_length_le hlen.le, Except.ok.injEq]

/-- A byte behind the NUL of a name is accepted and not written again. -/
theorem reencoding_of_unpadded :
    ∃ d b, decode .fileDef ([0x61, 0, 0x62] ++ Bytes.zeros 181) = .ok (fileDef d) ∧
      d.name = "a" ∧ (fileDef d).encode = .ok b ∧ b.length = 184 ∧
      b ≠ ([0x61, 0, 0x62] ++ Bytes.zeros 181).take 184 := by
  have hname : Utf8.decode (Descriptor.nameField
      (([0x61, 0, 0x62] ++ Bytes.zeros 181).take nameWidth)) = .ok "a" := Utf8.decode_encode "a"
  have hpadded : ¬ Descriptor.Padded ([0x61, 0, 0x62] ++ Bytes.zeros 181) :=
    fun h => absurd (h 0x62 (.tail 0 (.head _))) (by decide)
  have hfits : Descriptor.width ≤ ([0x61, 0, 0x62] ++ Bytes.zeros 181).length := by
    rw [List.length_append, Bytes.length_zeros]
    decide
  have hdecode : decode .fileDef ([0x61, 0, 0x62] ++ Bytes.zeros 181) = .ok (fileDef _) :=
    Except.bind_eq_ok_iff.2 ⟨(), checkLength_eq_ok_iff.2 hfits, Except.bind_eq_ok_iff.2
      ⟨_, Descriptor.decode_eq_ok_iff.2 ⟨"a", hname, rfl⟩, rfl⟩⟩
  obtain ⟨_, b, hb, hlen, hsame, _⟩ := (reencoding_eq_take_iff _).1 _ _ hdecode
  exact ⟨_, b, hdecode, rfl, hb, hlen, fun h => hpadded (hsame.1 h rfl)⟩

end Message

end FileMesh
