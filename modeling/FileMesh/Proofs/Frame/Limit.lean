import FileMesh.Proofs.Malformed

/-!
# What a limit on payloads changes

Of a payload that is longer than a reader accepts, the reader keeps a prefix and decodes that. Every
type reads its fields from the front, after it has checked that they are there. So more bytes can
only turn a refusal for want of bytes into something else: what a prefix decodes to, a message or
any other refusal, is what the whole payload decodes to.
-/

namespace FileMesh

/-! ## Reading the front -/

namespace Bytes

theorem slice_append_of_le {p : Bytes} {start n : Nat} (h : start + n ≤ p.length) (s : Bytes) :
    (p ++ s).slice start n = p.slice start n := by
  rw [slice, slice, List.drop_append_of_le_length (by omega),
    List.take_append_of_le_length (by rw [List.length_drop]; omega)]

end Bytes

namespace Descriptor

theorem decode_append {p : Bytes} (h : width ≤ p.length) (s : Bytes) :
    decode (p ++ s) = decode p := by
  have hslice {start n : Nat} (hn : start + n ≤ width) :
      (p ++ s).slice start n = p.slice start n :=
    Bytes.slice_append_of_le (hn.trans h) s
  have hchunk (i : Fin chunkCount) :
      (p ++ s).slice (48 + 16 * i.val) 16 = p.slice (48 + 16 * i.val) 16 :=
    hslice (by have hi : i.val < 8 := i.isLt; simp only [width]; omega)
  simp only [decode, hchunk, hslice (by decide : 0 + nameWidth ≤ width),
    hslice (by decide : 32 + 16 ≤ width), hslice (by decide : 176 + 8 ≤ width)]

end Descriptor

theorem Endpoint.decode_append {p : Bytes} (h : width ≤ p.length) (s : Bytes) :
    decode (p ++ s) = decode p := by
  have hoctet {i : Nat} (hi : i < width) : (p ++ s).getD i 0 = p.getD i 0 :=
    List.getD_append _ _ _ _ (hi.trans_le h)
  simp only [decode, Bytes.slice_append_of_le (show 4 + 2 ≤ p.length from h),
    hoctet (by decide : 0 < width), hoctet (by decide : 1 < width),
    hoctet (by decide : 2 < width), hoctet (by decide : 3 < width)]

/-! ## Decoding the front -/

namespace Message

variable {α : Type} {kind : MessageType} {needed : Nat} {p : Bytes}

/-- The payload is refused because it has fewer bytes than this type needs. -/
def Short (kind : MessageType) (p : Bytes) (result : Except WireError α) : Prop :=
  ∃ needed, p.length < needed ∧ result = .error (.truncated kind needed p.length)

theorem short_checkLength (h : p.length < needed) : Short kind p (checkLength kind needed p) :=
  ⟨needed, h, if_pos h⟩

/-- Once a payload is refused, nothing more is read of it. -/
theorem Short.bind {result : Except WireError α} {β : Type} (h : Short kind p result)
    (f : α → Except WireError β) : Short kind p (result >>= f) := by
  obtain ⟨needed, hlt, rfl⟩ := h
  exact ⟨needed, hlt, rfl⟩

theorem wordAt_append_of_le {i : Nat} (h : i + 4 ≤ p.length) (s : Bytes) :
    wordAt (p ++ s) i = wordAt p i := by
  rw [wordAt, wordAt, Bytes.slice_append_of_le h]

theorem checkLength_append (h : needed ≤ p.length) (s : Bytes) :
    checkLength kind needed (p ++ s) = checkLength kind needed p := by
  rw [checkLength_of_le h, checkLength_of_le (by rw [List.length_append]; omega)]

theorem decodeRequest_append (p s : Bytes) : Short .requestFileData p (decodeRequest p) ∨
    decodeRequest (p ++ s) = decodeRequest p := by
  rcases Nat.lt_or_ge p.length ChunkRequest.width with hlt | hge
  · exact .inl ((short_checkLength hlt).bind _)
  · right
    have hge' : 28 ≤ p.length := hge
    have hbyte {i : Nat} (hi : i < 28) : (p ++ s).getD i 0 = p.getD i 0 :=
      List.getD_append _ _ _ _ (hi.trans_le hge)
    simp only [decodeRequest, checkLength_append hge, hbyte (by decide : 26 < 28),
      hbyte (by decide : 27 < 28), wordAt_append_of_le (show 16 + 4 ≤ p.length by omega),
      Bytes.slice_append_of_le (show 0 + 16 ≤ p.length by omega),
      Bytes.slice_append_of_le (show 20 + 6 ≤ p.length by omega)]

theorem decodeData_append (p s : Bytes) : Short .fileData p (decodeData p) ∨
    decodeData (p ++ s) = decodeData p := by
  rcases Nat.lt_or_ge p.length ChunkData.fixedWidth with hlt | hge
  · exact .inl ((short_checkLength hlt).bind _)
  · have hge' : 24 ≤ p.length := hge
    have hindex := wordAt_append_of_le (show 16 + 4 ≤ p.length by omega) s
    have hsize := wordAt_append_of_le (show 20 + 4 ≤ p.length by omega) s
    have hhash := Bytes.slice_append_of_le (show 0 + 16 ≤ p.length by omega) s
    simp only [decodeData, checkLength_append hge, checkLength_of_le hge, hindex, hsize, hhash]
    -- The index is checked before the size says how many bytes follow.
    cases checkIndex (wordAt p 16) with
    | error e => exact .inr rfl
    | ok index =>
      rcases Nat.lt_or_ge p.length (ChunkData.fixedWidth + (wordAt p 20).toNat) with hlt' | hge'
      · exact .inl ((short_checkLength hlt').bind _)
      · right
        rw [checkLength_append hge', Bytes.slice_append_of_le hge']

/-- What a payload decodes to does not change when bytes follow, unless it is refused for want of
bytes. -/
theorem decode_append (kind : MessageType) (p s : Bytes) : Short kind p (decode kind p) ∨
    decode kind (p ++ s) = decode kind p := by
  cases kind with
  | fileDef =>
    rcases Nat.lt_or_ge p.length Descriptor.width with hlt | hge
    · exact .inl ((short_checkLength hlt).bind _)
    · right
      simp only [decode, checkLength_append hge, Descriptor.decode_append hge]
  | requestFileData =>
    rcases decodeRequest_append p s with hshort | hsame
    · exact .inl (hshort.bind _)
    · right
      simp only [decode, hsame]
  | fileData =>
    rcases decodeData_append p s with hshort | hsame
    · exact .inl (hshort.bind _)
    · right
      simp only [decode, hsame]
  | requestAddrSelf => exact .inr rfl
  | addrSelf =>
    rcases Nat.lt_or_ge p.length Endpoint.width with hlt | hge
    · exact .inl ((short_checkLength hlt).bind _)
    · right
      simp only [decode, checkLength_append hge, Endpoint.decode_append hge]

end Message

/-! ## Reading with a limit -/

namespace FrameReader

variable {r : FrameReader} {f : Frame} {rest : Bytes}

theorem interpret_append (header : FrameHeader) (p s : Bytes) :
    (∃ kind, header.messageType = .ok kind ∧ Message.Short kind p (interpret header p)) ∨
      interpret header (p ++ s) = interpret header p := by
  rw [interpret, interpret]
  cases header.messageType with
  | error e => exact .inr rfl
  | ok kind =>
    rcases Message.decode_append kind p s with hshort | hsame
    · exact .inl ⟨kind, rfl, hshort⟩
    · exact .inr hsame

/-- A frame is read with a limit as it is read without one, or is refused because the bytes that
were kept are fewer than its type needs. -/
theorem next_of_kept (h : r.unread = f.bytes ++ rest) (limit : Nat) {unlimited : Nat}
    (hall : f.payload.length ≤ unlimited) :
    (r.next limit).1 = (r.next unlimited).1 ∨
      ∃ kind needed, f.header.messageType = .ok kind ∧ min limit f.payload.length < needed ∧
        (r.next limit).1 =
          .error (.protocol (.truncated kind needed (min limit f.payload.length))) := by
  obtain ⟨r₁, -, hlimit⟩ := next_of_whole h limit
  obtain ⟨r₂, -, hunlimited⟩ := next_of_whole h unlimited
  rw [hlimit, hunlimited, List.take_of_length_le hall]
  have hkept := interpret_append f.header (f.payload.take limit) (f.payload.drop limit)
  rw [List.take_append_drop] at hkept
  rcases hkept with ⟨kind, hkind, needed, hlt, hshort⟩ | hsame
  · right
    rw [List.length_take] at hlt hshort
    rw [hshort]
    exact ⟨kind, needed, hkind, hlt, rfl⟩
  · left
    rw [hsame]

/-- A limit does not change what a message says. Any frame that arrives whole is read with a limit
as it is without one, or it is refused because too little of it was kept; it is consumed in both
cases. And whatever a payload decodes to, other than a refusal for want of bytes, it still decodes
to when bytes follow. -/
theorem next_limit_or_truncated :
    (∀ (r : FrameReader) (f : Frame) (rest : Bytes) (limit unlimited : Nat),
      r.unread = f.bytes ++ rest → f.payload.length ≤ unlimited →
      ((r.next limit).1 = (r.next unlimited).1 ∨
        ∃ kind needed, f.header.messageType = .ok kind ∧ min limit f.payload.length < needed ∧
          (r.next limit).1 =
            .error (.protocol (.truncated kind needed (min limit f.payload.length)))) ∧
      (r.next limit).2.unread = rest ∧ (r.next unlimited).2.unread = rest) ∧
    ∀ (kind : MessageType) (p s : Bytes),
      (∀ kind' needed actual, Message.decode kind p ≠ .error (.truncated kind' needed actual)) →
      Message.decode kind (p ++ s) = Message.decode kind p := by
  refine ⟨fun r f rest limit unlimited h hall => ⟨next_of_kept h limit hall, ?_, ?_⟩,
    fun kind p s hno => ?_⟩
  · obtain ⟨r', hrest, hnext⟩ := next_of_whole h limit
    rw [hnext, hrest]
  · obtain ⟨r', hrest, hnext⟩ := next_of_whole h unlimited
    rw [hnext, hrest]
  · rcases Message.decode_append kind p s with ⟨needed, -, hshort⟩ | hsame
    · exact absurd hshort (hno kind needed _)
    · exact hsame

/-- A chunk of two bytes of which the second is cut off, and an address with a byte too many. -/
theorem next_limit_or_truncated_chunk :
    let f : Frame := ⟨⟨0x0A, 26⟩, Bytes.zeros 23 ++ [2, 8, 9], rfl⟩
    let r := FrameReader.ofSource ⟨[f.bytes.take 10, f.bytes.drop 10 ++ [7]], .closed⟩
    r.unread = f.bytes ++ [7] ∧ f.payload.length ≤ 26 ∧
      (∃ kind needed, f.header.messageType = .ok kind ∧ 25 < needed ∧
        (r.next 25).1 = .error (.protocol (.truncated kind needed 25))) ∧
      (r.next 26).1 = .ok (.fileData ⟨.zero, 0, 2, [8, 9]⟩) ∧
      (r.next 25).2.unread = [7] ∧ (r.next 26).2.unread = [7] ∧
      Message.decode .addrSelf [127, 0, 0, 1, 0, 9, 3] = .ok (.addrSelf ⟨⟨127, 0, 0, 1⟩, 9⟩) := by
  intro f r
  have hr : r.unread = f.bytes ++ [7] := by decide
  have hall : f.payload.length ≤ 26 := by decide
  have hwhole : (r.next 26).1 = .ok (.fileData ⟨.zero, 0, 2, [8, 9]⟩) := by decide +kernel
  obtain ⟨hread, hlimit, hunlimited⟩ := next_limit_or_truncated.1 r f [7] 25 26 hr hall
  have hcut := hread.resolve_left (by decide +kernel)
  have haddress : Message.decode .addrSelf [127, 0, 0, 1, 0, 9] =
      .ok (.addrSelf ⟨⟨127, 0, 0, 1⟩, 9⟩) := by decide
  have hlonger := next_limit_or_truncated.2 .addrSelf [127, 0, 0, 1, 0, 9] [3] fun _ _ _ he => by
    rw [haddress] at he
    cases he
  exact ⟨hr, hall, hcut, hwhole, hlimit, hunlimited, hlonger.trans haddress⟩

end FrameReader

end FileMesh
