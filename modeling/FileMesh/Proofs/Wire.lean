import FileMesh.Message
import FileMesh.Proofs.Chunks
import FileMesh.Proofs.Text
import Mathlib.Data.List.TakeWhile

/-!
# Messages on the wire

A message is well-formed when its fields fit their places on the wire: a name its field, an index
the chunks, a declared size its data. Decoding undoes the encoding of a well-formed message.
-/

namespace FileMesh

/-! ## Words -/

namespace Bytes

theorem toNatBE_append_singleton (b : Bytes) (x : UInt8) :
    toNatBE (b ++ [x]) = 256 * toNatBE b + x.toNat := by
  rw [toNatBE, List.foldl_append]
  rfl

/-- A word ends in its least significant byte. -/
theorem ofNatBE_succ (w n : Nat) :
    ofNatBE (w + 1) n = ofNatBE w (n / 256) ++ [UInt8.ofNat (n % 256)] := by
  rw [ofNatBE, ofNatLE, List.reverse_cons]
  rfl

/-- Reading a word back gives its value, as far as the word holds it. -/
theorem toNatBE_ofNatBE (w n : Nat) : toNatBE (ofNatBE w n) = n % 256 ^ w := by
  induction w generalizing n with
  | zero => rw [Nat.pow_zero, Nat.mod_one]; rfl
  | succ w ih =>
    have hbyte : (UInt8.ofNat (n % 256)).toNat = n % 256 := by
      rw [UInt8.toNat_ofNat', Nat.mod_mod]
    rw [ofNatBE_succ, toNatBE_append_singleton, ih, hbyte, Nat.pow_succ', Nat.mod_mul]
    omega

theorem toNatBE_ofNatBE_of_lt {w n : Nat} (h : n < 256 ^ w) : toNatBE (ofNatBE w n) = n := by
  rw [toNatBE_ofNatBE, Nat.mod_eq_of_lt h]

theorem slice_append_left {a : Bytes} {n : Nat} (h : a.length = n) (b : Bytes) :
    slice (a ++ b) 0 n = a := by
  rw [slice, List.drop_zero, ← h, List.take_left]

theorem slice_append_right {a : Bytes} {m : Nat} (h : a.length = m) (b : Bytes) (k n : Nat) :
    slice (a ++ b) (m + k) n = slice b k n := by
  rw [slice, slice, ← h, ← List.drop_drop, List.drop_left]

theorem slice_append_self {a : Bytes} {m : Nat} (h : a.length = m) (b : Bytes) (n : Nat) :
    slice (a ++ b) m n = b.take n := by
  rw [slice, ← h, List.drop_left]

/-- Parts of one length, one after the other, can be read back. -/
theorem slice_flatMap {α : Type} {f : α → Bytes} {w : Nat} (hf : ∀ a, (f a).length = w) (l : List α)
    (rest : Bytes) {i : Nat} (hi : i < l.length) :
    slice (l.flatMap f ++ rest) (w * i) w = f l[i] := by
  induction l generalizing i with
  | nil => exact absurd hi (Nat.not_lt_zero i)
  | cons a l ih =>
    rw [List.flatMap_cons, List.append_assoc]
    cases i with
    | zero => exact slice_append_left (hf a) _
    | succ i =>
      rw [Nat.mul_succ, Nat.add_comm, slice_append_right (hf a)]
      exact ih (Nat.lt_of_succ_lt_succ hi)

end Bytes

/-! ## Descriptors -/

namespace Descriptor

variable {d : Descriptor}

theorem nameField_append_zeros (name : Bytes) (n : Nat) :
    nameField (name ++ Bytes.zeros n) = nameField name := by
  induction name with
  | nil =>
    cases n with
    | zero => rfl
    | succ n => rfl
  | cons b name ih =>
    simp only [nameField, List.cons_append, List.takeWhile_cons] at ih ⊢
    rw [ih]

theorem nameField_of_notMem {name : Bytes} (h : 0 ∉ name) : nameField name = name :=
  List.takeWhile_eq_self_iff.2 fun _ hb => bne_iff_ne.2 fun h0 => h (h0 ▸ hb)

theorem length_chunkHashes (d : Descriptor) :
    (d.chunkHashes.toList.flatMap ContentHash.bytes).length = 128 := by
  have hsum (l : List ContentHash) : (l.flatMap ContentHash.bytes).length = 16 * l.length := by
    induction l with
    | nil => rfl
    | cons a l ih =>
      rw [List.flatMap_cons, List.length_append, ih, a.length_bytes, List.length_cons]
      omega
  rw [hsum, Vector.length_toList]
  rfl

theorem encode_of_le (h : d.nameLength ≤ nameWidth) : d.encode = .ok (Utf8.encode d.name ++
    Bytes.zeros (nameWidth - d.nameLength) ++ d.hash.bytes ++
      d.chunkHashes.toList.flatMap ContentHash.bytes ++ Bytes.ofNatBE 8 d.size.toNat) := by
  rw [encode]
  exact if_neg (Nat.not_lt.2 h)

/-- Every field but the name is read back, whatever the name field is. -/
theorem decode_fields {field : Bytes} (hfield : field.length = nameWidth) {name : String}
    (hname : Utf8.decode (nameField field) = .ok name) (d : Descriptor) :
    decode (field ++ d.hash.bytes ++ d.chunkHashes.toList.flatMap ContentHash.bytes ++
      Bytes.ofNatBE 8 d.size.toNat) = .ok { d with name } := by
  have hhash := d.hash.length_bytes
  have hchunks := d.length_chunkHashes
  have hsize : Bytes.toNatBE (Bytes.ofNatBE 8 d.size.toNat) = d.size.toNat :=
    Bytes.toNatBE_ofNatBE_of_lt d.size.toNat_lt
  rw [List.append_assoc, List.append_assoc, decode, Bytes.slice_append_left hfield, hname]
  simp only [Except.ok.injEq]
  obtain ⟨_, hash, chunkHashes, size⟩ := d
  simp only [mk.injEq, true_and]
  refine ⟨?_, ?_, ?_⟩
  · rw [Bytes.slice_append_self hfield, List.take_append_of_le_length (by rw [hhash]),
      List.take_of_length_le (by rw [hhash]), ContentHash.ofBytes_bytes]
  · apply Vector.ext
    intro i hi
    have hi' : i < chunkHashes.toList.length := by rwa [Vector.length_toList]
    rw [Vector.getElem_ofFn, show 48 + 16 * i = 32 + (16 + 16 * i) by omega,
      Bytes.slice_append_right hfield, Bytes.slice_append_right hhash,
      Bytes.slice_flatMap ContentHash.length_bytes _ _ hi', ContentHash.ofBytes_bytes,
      Vector.getElem_toList]
  · rw [show 176 = 32 + (16 + 128) by rfl, Bytes.slice_append_right hfield,
      Bytes.slice_append_right hhash, Bytes.slice_append_self hchunks,
      List.take_of_length_le (by rw [Bytes.length_ofNatBE]), hsize]
    exact UInt64.ofNat_toNat

/-- A descriptor takes 184 bytes, and decoding them gives it back with what precedes the first NUL
of its name. -/
theorem decode_encode_of_le (hn : d.nameLength ≤ nameWidth) :
    ∃ b name, d.encode = .ok b ∧ b.length = width ∧ decode b = .ok { d with name } ∧
      Utf8.encode name = nameField (Utf8.encode d.name) := by
  have hfield : (Utf8.encode d.name ++ Bytes.zeros (nameWidth - d.nameLength)).length = 32 := by
    rw [List.length_append, Bytes.length_zeros]
    exact Nat.add_sub_cancel' hn
  obtain ⟨name, hname⟩ := Utf8.exists_encode_eq_takeWhile d.name
  refine ⟨_, name, encode_of_le hn, ?_, decode_fields hfield ?_ d, hname⟩
  · rw [List.length_append, List.length_append, List.length_append, hfield, d.hash.length_bytes,
      d.length_chunkHashes, Bytes.length_ofNatBE]
  · rw [nameField_append_zeros, nameField, ← hname, Utf8.decode_encode]

/-- Decoding a descriptor gives it back if its name has no NUL. -/
theorem decode_encode (hn : d.nameLength ≤ nameWidth) (h0 : '\x00' ∉ d.name.toList) :
    ∃ b, d.encode = .ok b ∧ b.length = width ∧ decode b = .ok d := by
  obtain ⟨b, name, hb, hlen, hd, hname⟩ := decode_encode_of_le hn
  rw [nameField_of_notMem fun h => h0 ((Utf8.zero_mem_encode_iff d.name).1 h)] at hname
  have hsame : name = d.name := by
    have hback := Utf8.decode_encode name
    rw [hname, Utf8.decode_encode] at hback
    exact (Except.ok.inj hback).symm
  subst hsame
  exact ⟨b, hb, hlen, hd⟩

end Descriptor

/-! ## Endpoints -/

namespace Endpoint

theorem length_encode (e : Endpoint) : e.encode.length = width := by
  simp [encode, Ipv4.octets]

theorem decode_encode (e : Endpoint) : decode e.encode = e := by
  obtain ⟨⟨a, b, c, d⟩, port⟩ := e
  have hport : Bytes.toNatBE (Bytes.ofNatBE 2 port.toNat) = port.toNat :=
    Bytes.toNatBE_ofNatBE_of_lt port.toNat_lt
  have hslice : Bytes.slice ([a, b, c, d] ++ Bytes.ofNatBE 2 port.toNat) 4 2 =
      Bytes.ofNatBE 2 port.toNat := by
    rw [Bytes.slice_append_self (a := [a, b, c, d]) (m := 4) rfl,
      List.take_of_length_le (by rw [Bytes.length_ofNatBE])]
  simp only [decode, encode, Ipv4.octets, hslice, hport, UInt16.ofNat_toNat]
  rfl

end Endpoint

/-! ## Messages -/

namespace Message

/-- The fields of a message fit their places on the wire. -/
def WellFormed : Message → Prop
  | fileDef d => d.nameLength ≤ nameWidth ∧ '\x00' ∉ d.name.toList
  | requestFileData r => r.chunkIndex.toNat < chunkCount
  | fileData c => c.chunkIndex.toNat < chunkCount ∧ c.declaredSize.toNat = c.data.length
  | _ => True

theorem checkIndex_of_lt {index : UInt32} (h : index.toNat < chunkCount) :
    checkIndex index = .ok index := if_pos h

theorem checkLength_of_le {kind : MessageType} {needed : Nat} {payload : Bytes}
    (h : needed ≤ payload.length) : checkLength kind needed payload = .ok () :=
  if_neg (Nat.not_lt.2 h)

theorem wordAt_append {a : Bytes} {m : Nat} (h : a.length = m) (w : UInt32) (b : Bytes) :
    wordAt (a ++ (Bytes.ofNatBE 4 w.toNat ++ b)) m = w := by
  have hw : Bytes.toNatBE (Bytes.ofNatBE 4 w.toNat) = w.toNat :=
    Bytes.toNatBE_ofNatBE_of_lt w.toNat_lt
  rw [wordAt, Bytes.slice_append_self h,
    List.take_append_of_le_length (by rw [Bytes.length_ofNatBE]),
    List.take_of_length_le (by rw [Bytes.length_ofNatBE]), hw, UInt32.ofNat_toNat]

theorem length_encodeRequest (r : ChunkRequest) :
    (encodeRequest r).length = ChunkRequest.width := by
  simp [encodeRequest, Endpoint.encode, Ipv4.octets, r.hash.length_bytes]

theorem length_encodeData (c : ChunkData) :
    (encodeData c).length = ChunkData.fixedWidth + c.data.length := by
  simp only [encodeData, List.length_append, c.hash.length_bytes, Bytes.length_ofNatBE]

theorem decodeRequest_encode {r : ChunkRequest} (h : r.chunkIndex.toNat < chunkCount) :
    decodeRequest (encodeRequest r) = .ok r := by
  have hhash := r.hash.length_bytes
  have hlen := r.returnEndpoint.length_encode
  have hword : wordAt (encodeRequest r) 16 = r.chunkIndex := by
    rw [encodeRequest, List.append_assoc, List.append_assoc, wordAt_append hhash]
  have hprefix : (r.hash.bytes ++ Bytes.ofNatBE 4 r.chunkIndex.toNat).length = 20 := by
    rw [List.length_append, hhash, Bytes.length_ofNatBE]
  have hendpoint : Bytes.slice (encodeRequest r) 20 6 = r.returnEndpoint.encode := by
    rw [encodeRequest, List.append_assoc, Bytes.slice_append_self hprefix]
    exact List.take_left' hlen
  have htail (i : Nat) : (encodeRequest r).getD (26 + i) 0 =
      [UInt8.ofNat Endpoint.width, r.ttl].getD i 0 := by
    have : (r.hash.bytes ++ Bytes.ofNatBE 4 r.chunkIndex.toNat ++
        r.returnEndpoint.encode).length = 26 := by
      rw [List.length_append, hprefix, hlen]
      rfl
    rw [encodeRequest, List.getD_append_right _ _ _ _ (by omega), this, Nat.add_sub_cancel_left]
  have h26 : (encodeRequest r).getD 26 0 = UInt8.ofNat Endpoint.width := htail 0
  have h27 : (encodeRequest r).getD 27 0 = r.ttl := htail 1
  have hfirst : Bytes.slice (encodeRequest r) 0 16 = r.hash.bytes := by
    rw [encodeRequest, List.append_assoc, List.append_assoc, Bytes.slice_append_left hhash]
  have hneeded : checkLength .requestFileData ChunkRequest.width (encodeRequest r) = .ok () :=
    checkLength_of_le (Nat.le_of_eq (length_encodeRequest r).symm)
  simp only [decodeRequest, hneeded, h26, h27, hword, hendpoint, hfirst, checkIndex_of_lt h,
    Endpoint.decode_encode, ContentHash.ofBytes_bytes]
  rfl

theorem decodeData_encode {c : ChunkData} (h : c.chunkIndex.toNat < chunkCount)
    (hsize : c.declaredSize.toNat = c.data.length) : decodeData (encodeData c) = .ok c := by
  have hhash := c.hash.length_bytes
  have hindex : wordAt (encodeData c) 16 = c.chunkIndex := by
    rw [encodeData, List.append_assoc, List.append_assoc, wordAt_append hhash]
  have hprefix : (c.hash.bytes ++ Bytes.ofNatBE 4 c.chunkIndex.toNat).length = 20 := by
    rw [List.length_append, hhash, Bytes.length_ofNatBE]
  have hdeclared : wordAt (encodeData c) 20 = c.declaredSize := by
    rw [encodeData, List.append_assoc _ _ c.data, wordAt_append hprefix]
  have hfixed : (c.hash.bytes ++ Bytes.ofNatBE 4 c.chunkIndex.toNat ++
      Bytes.ofNatBE 4 c.declaredSize.toNat).length = ChunkData.fixedWidth := by
    rw [List.length_append, hprefix, Bytes.length_ofNatBE]
  have hdata : Bytes.slice (encodeData c) ChunkData.fixedWidth c.declaredSize.toNat = c.data := by
    rw [encodeData, Bytes.slice_append_self hfixed, hsize, List.take_length]
  have hfirst : Bytes.slice (encodeData c) 0 16 = c.hash.bytes := by
    rw [encodeData, List.append_assoc, List.append_assoc, Bytes.slice_append_left hhash]
  have hlen := length_encodeData c
  have hneeded : checkLength .fileData ChunkData.fixedWidth (encodeData c) = .ok () :=
    checkLength_of_le (by omega)
  have hwhole : checkLength .fileData (ChunkData.fixedWidth + c.declaredSize.toNat)
      (encodeData c) = .ok () :=
    checkLength_of_le (by omega)
  simp only [decodeData, hneeded, hindex, hdeclared, hdata, hfirst, checkIndex_of_lt h,
    ContentHash.ofBytes_bytes, bind, Except.bind, hwhole]

/-- A well-formed message can be encoded, and decoding gives it back. -/
theorem decode_encode {m : Message} (h : m.WellFormed) :
    ∃ payload, m.encode = .ok payload ∧ decode m.type payload = .ok m := by
  cases m with
  | fileDef d =>
    obtain ⟨b, hb, hlen, hd⟩ := Descriptor.decode_encode h.1 h.2
    refine ⟨b, hb, ?_⟩
    simp only [decode, type, checkLength_of_le (Nat.le_of_eq hlen.symm), hd]
    rfl
  | requestFileData r =>
    refine ⟨_, rfl, ?_⟩
    simp only [decode, type, decodeRequest_encode h]
    rfl
  | fileData c =>
    refine ⟨_, rfl, ?_⟩
    simp only [decode, type, decodeData_encode h.1 h.2]
    rfl
  | requestAddrSelf => exact ⟨_, rfl, rfl⟩
  | addrSelf e =>
    refine ⟨_, rfl, ?_⟩
    simp only [decode, type, checkLength_of_le (Nat.le_of_eq e.length_encode.symm),
      Endpoint.decode_encode]
    rfl

end Message

end FileMesh
