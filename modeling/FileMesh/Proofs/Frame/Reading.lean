import FileMesh.Proofs.Frame.Alignment

/-!
# Reading to the end

A stream of whole frames may end in the beginning of one more, when its writer broke off. A reader
gets an answer for each whole frame, in order, and then fails for good, wherever the last frame was
cut.
-/

namespace FileMesh

namespace Message

/-- The bytes of a message on a connection; one that cannot be encoded has none. -/
def frame (m : Message) : Bytes :=
  match m.encode with
  | .ok payload => FrameHeader.frame m.type payload
  | .error _ => []

theorem frame_of_encode {m : Message} {payload : Bytes} (h : m.encode = .ok payload) :
    m.frame = FrameHeader.frame m.type payload := by
  rw [frame, h]

/-- The beginning of the frame of a message, without its end. -/
def IsCut (m : Message) (part : Bytes) : Prop := part <+: m.frame ∧ part ≠ m.frame

/-- What the payload of a message is decoded to. -/
def readBack (m : Message) : Except FrameError Message :=
  (m.encode >>= decode m.type).mapError .protocol

/-- The payload of the message, if it has one, is no longer than `n` bytes. -/
def Fits (m : Message) (n : Nat) : Prop := ∀ payload, m.encode = .ok payload → payload.length ≤ n

end Message

namespace FrameReader

variable {r : FrameReader} {m : Message} {limit : UInt64} {part : Bytes}

/-! ## A frame that was cut -/

theorem peek_of_short (h : r.unread.length < FrameHeader.width) :
    ∃ e r', r.peek = (.error e, r') ∧ e.isFatal = true := by
  rw [unread, List.length_append] at h
  have hpending : r.pending = none := by
    cases hp : r.pending with
    | none => rfl
    | some header =>
      rw [hp, Option.map_some, Option.getD_some, FrameHeader.length_encode] at h
      omega
  have hshort : r.source.unread.length < FrameHeader.width := by omega
  simp only [peek, hpending, Source.readExact_short hshort]
  cases r.source.ending with
  | closed => exact ⟨_, _, rfl, rfl⟩
  | reset => exact ⟨_, _, rfl, rfl⟩

theorem isFatal_broken (ending : StreamEnd) (cause : IoError) :
    (broken ending cause).isFatal = true := by
  cases ending <;> rfl

/-- Where a payload with `available` bytes of the declared ones broke off, if at most `limit` bytes
are kept: in the part that is kept or in the excess. -/
def breach (header : FrameHeader) (available limit : Nat) : IoError :=
  if min header.length.toNat limit ≤ available then .endInExcess else .endInPayload

/-- A payload that ends too early breaks the stream, and what there was of it is lost. -/
theorem receive_of_cut {header : FrameHeader} {rest : Bytes}
    (h : r.unread = header.encode ++ rest) (hl : rest.length < header.length.toNat)
    (limit : Nat) : ∃ r', r'.unread = [] ∧ r.receive limit =
      (.error (broken r.source.ending (breach header rest.length limit)), r') := by
  obtain ⟨s, hpeek, hs⟩ := peek_of_unread h
  have hending : s.ending = r.source.ending := by
    rw [← r.ending_peek, hpeek]
  by_cases hkeep : min header.length.toNat limit ≤ rest.length
  · obtain ⟨t, ht, htail, hend⟩ := Source.readExact_ok (hs.symm ▸ hkeep)
    have hshort : t.unread.length < header.length.toNat - min header.length.toNat limit := by
      rw [htail, List.length_drop, hs]
      omega
    refine ⟨⟨none, { t with segments := [] }⟩, rfl, ?_⟩
    simp only [receive, hpeek, ht, Source.readExact_short hshort, hend, hending, breach,
      if_pos hkeep]
  · have hshort : s.unread.length < min header.length.toNat limit := by
      rw [hs]
      omega
    refine ⟨⟨none, { s with segments := [] }⟩, rfl, ?_⟩
    simp only [receive, hpeek, Source.readExact_short hshort, hending, breach, if_neg hkeep]

theorem receive_of_short {header : FrameHeader} {rest : Bytes}
    (h : r.unread = header.encode ++ rest) (hl : rest.length < header.length.toNat)
    (limit : Nat) : ∃ e r', r.receive limit = (.error e, r') ∧ e.isFatal = true := by
  obtain ⟨r', -, hreceive⟩ := receive_of_cut h hl limit
  exact ⟨_, r', hreceive, isFatal_broken _ _⟩

theorem length_header {kind : MessageType} {payload : Bytes} (h : payload.length < 2 ^ 64) :
    (FrameHeader.new kind (UInt64.ofNat payload.length)).length.toNat = payload.length := by
  rw [FrameHeader.new, UInt64.toNat_ofNat', Nat.mod_eq_of_lt h]

/-- A frame that was not finished is a fatal error, wherever it was cut. -/
theorem next_of_cut {kind : MessageType} {payload : Bytes} (hlt : payload.length < 2 ^ 64)
    (hp : part <+: FrameHeader.frame kind payload) (hne : part ≠ FrameHeader.frame kind payload)
    (h : r.unread = part) (limit : Nat) :
    ∃ e r', r.next limit = (.error e, r') ∧ e.isFatal = true := by
  suffices hreceive : ∃ e r', r.receive limit = (.error e, r') ∧ e.isFatal = true by
    obtain ⟨e, r', he, hfatal⟩ := hreceive
    refine ⟨e, r', ?_, hfatal⟩
    simp only [next, he]
  by_cases hshort : part.length < FrameHeader.width
  · obtain ⟨e, r', he, hfatal⟩ := peek_of_short (r := r) (h ▸ hshort)
    refine ⟨e, r', ?_, hfatal⟩
    simp only [receive, he]
  · -- The header is there, and something of the payload is missing.
    have hheader : (FrameHeader.new kind (UInt64.ofNat payload.length)).encode <+: part := by
      refine List.prefix_of_prefix_length_le (List.prefix_append _ payload) hp ?_
      rw [FrameHeader.length_encode]
      omega
    obtain ⟨rest, rfl⟩ := hheader
    have hrest : rest <+: payload := (List.prefix_append_right_inj _).1 hp
    have hlen : rest.length ≠ payload.length := by
      intro heq
      rw [hrest.eq_of_length heq] at hne
      exact hne rfl
    refine receive_of_short h ?_ limit
    rw [length_header hlt]
    exact lt_of_le_of_ne hrest.length_le hlen

theorem next_of_isCut (hfits : m.Fits (2 ^ 64 - 1)) (hcut : m.IsCut part)
    (h : r.unread = part) (limit : Nat) :
    ∃ e r', r.next limit = (.error e, r') ∧ e.isFatal = true := by
  obtain ⟨hp, hne⟩ := hcut
  cases he : m.encode with
  | ok payload =>
    have hlt := hfits payload he
    rw [Message.frame_of_encode he] at hp hne
    exact next_of_cut (by omega) hp hne h limit
  | error e =>
    rw [Message.frame, he] at hp hne
    exact absurd (List.prefix_nil.1 hp) hne

/-- So is the end of the stream between two frames. -/
theorem next_of_nil (h : r.unread = []) (limit : Nat) :
    ∃ e r', r.next limit = (.error e, r') ∧ e.isFatal = true :=
  next_of_isCut (m := .requestAddrSelf) (fun payload he => by cases he; decide)
    ⟨List.nil_prefix, by decide⟩ h limit

/-! ## Frames in a row -/

/-- A whole frame is decoded, if its payload is no longer than the limit. -/
theorem next_of_frame {payload rest : Bytes} (he : m.encode = .ok payload)
    (hle : payload.length ≤ limit.toNat) (h : r.unread = m.frame ++ rest) :
    (r.next limit.toNat).1 = m.readBack ∧ (r.next limit.toNat).2.unread = rest := by
  rw [Message.frame_of_encode he, FrameHeader.frame, List.append_assoc] at h
  obtain ⟨source, hreceive, hsource⟩ :=
    receive_frame h (length_header (hle.trans_lt limit.toNat_lt)) limit.toNat
  have hkind : (FrameHeader.new m.type (UInt64.ofNat payload.length)).messageType = .ok m.type :=
    MessageType.ofByte_toByte m.type
  simp only [next, hreceive, List.take_of_length_le hle, interpret, hkind, Message.readBack, he,
    bind, Except.bind]
  cases Message.decode m.type payload <;> exact ⟨rfl, hsource⟩

/-- The answers to so many calls. -/
def nexts (limit : Nat) : Nat → FrameReader → List (Except FrameError Message)
  | 0, _ => []
  | n + 1, r => (r.next limit).1 :: nexts limit n (r.next limit).2

theorem readAll_of_error {limit : Nat} {e : FrameError} {r' : FrameReader}
    (h : r.next limit = (.error e, r')) : r.readAll limit = ([], e) := by
  rw [readAll]
  split <;> rename_i h'
  · cases h.symm.trans h'
    rfl
  · cases h.symm.trans h'

theorem readAll_of_ok {limit : Nat} {r' : FrameReader} (h : r.next limit = (.ok m, r')) :
    r.readAll limit = (m :: (r'.readAll limit).1, (r'.readAll limit).2) := by
  rw [readAll]
  split <;> rename_i h'
  · cases h.symm.trans h'
  · cases h.symm.trans h'
    rfl

variable {messages : List Message}

/-- Whole frames give their answers in order; what is left of another after them is fatal. -/
theorem nexts_of_frames (henc : ∀ m ∈ messages, ∃ payload, m.encode = .ok payload)
    (hle : ∀ m ∈ messages, m.Fits limit.toNat)
    (hpart : part = [] ∨ ∃ m : Message, m.Fits (2 ^ 64 - 1) ∧ m.IsCut part)
    (h : r.unread = messages.flatMap Message.frame ++ part) :
    ∃ e : FrameError, e.isFatal = true ∧
      r.nexts limit.toNat (messages.length + 1) = messages.map Message.readBack ++ [.error e] := by
  induction messages generalizing r with
  | nil =>
    obtain ⟨e, r', hnext, hfatal⟩ :
        ∃ e r', r.next limit.toNat = (.error e, r') ∧ e.isFatal = true := by
      rcases hpart with hnil | ⟨m, hfits, hcut⟩
      · exact next_of_nil (h.trans hnil) _
      · exact next_of_isCut hfits hcut h _
    refine ⟨e, hfatal, ?_⟩
    simp only [nexts, List.length_nil, hnext, List.map_nil, List.nil_append]
  | cons m messages ih =>
    rw [List.forall_mem_cons] at henc hle
    obtain ⟨payload, he⟩ := henc.1
    rw [List.flatMap_cons, List.append_assoc] at h
    obtain ⟨hanswer, hrest⟩ := next_of_frame he (hle.1 payload he) h
    obtain ⟨e, hfatal, hnexts⟩ := ih henc.2 hle.2 hrest
    refine ⟨e, hfatal, ?_⟩
    rw [List.length_cons, nexts, hanswer, hnexts]
    rfl

/-- If every message survives the wire, reading all of them gives them all and the failure. -/
theorem readAll_of_nexts {limit : Nat} {e : FrameError} (hback : ∀ m ∈ messages, m.readBack = .ok m)
    (h : r.nexts limit (messages.length + 1) = messages.map Message.readBack ++ [.error e]) :
    r.readAll limit = (messages, e) := by
  induction messages generalizing r with
  | nil =>
    rw [List.length_nil, nexts, nexts] at h
    exact readAll_of_error (Prod.ext (List.cons.inj h).1 rfl)
  | cons m messages ih =>
    rw [List.forall_mem_cons] at hback
    rw [List.length_cons, nexts, List.map_cons, List.cons_append] at h
    obtain ⟨hhead, htail⟩ := List.cons.inj h
    rw [readAll_of_ok (Prod.ext (hhead.trans hback.1) rfl), ih hback.2 htail]

end FrameReader

end FileMesh
