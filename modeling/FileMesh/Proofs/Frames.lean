import FileMesh.Frame.Sink
import FileMesh.Proofs.Wire

/-!
# Frames on a connection

A sink that never stops taking bytes takes whole frames. A reader that has a whole frame before it
reads that frame and no byte after it, wherever the stream was cut and whether or not the header was
looked at before. So a message that was sent is the message that is read.
-/

namespace FileMesh

/-! ## Headers -/

namespace FrameHeader

theorem decode_encode_append (h : FrameHeader) (rest : Bytes) : decode (h.encode ++ rest) = h := by
  obtain ⟨kind, length⟩ := h
  have hlength : Bytes.toNatBE (Bytes.ofNatBE 8 length.toNat) = length.toNat :=
    Bytes.toNatBE_ofNatBE_of_lt length.toNat_lt
  have hslice : Bytes.slice (kind :: Bytes.ofNatBE 8 length.toNat ++ rest) 1 8 =
      Bytes.ofNatBE 8 length.toNat :=
    Bytes.slice_append_left (Bytes.length_ofNatBE 8 _) rest
  rw [decode, encode, hslice, hlength, UInt64.ofNat_toNat]
  rfl

theorem decode_encode (h : FrameHeader) : decode h.encode = h := by
  have := decode_encode_append h []
  rwa [List.append_nil] at this

theorem encode_inj {h h' : FrameHeader} (he : h.encode = h'.encode) : h = h' := by
  rw [← decode_encode h, he, decode_encode]

/-- The bytes of a frame. -/
def frame (kind : MessageType) (payload : Bytes) : Bytes :=
  (new kind (UInt64.ofNat payload.length)).encode ++ payload

end FrameHeader

/-! ## Writing -/

namespace Sink

variable {s : Sink}

/-- No flush fails, as on a stream that holds nothing back. -/
def Flushes (s : Sink) : Prop := ∀ total, s.flushFailure total = none

/-- A sink that is open, takes something of whatever it is offered and flushes. -/
structure Willing (s : Sink) : Prop where
  isShut : s.isShut = false
  uptake : ∀ total offered, offered ≠ 0 → s.uptake total offered ≠ 0
  flushes : s.Flushes

theorem willing_unlimited : unlimited.Willing := ⟨rfl, fun _ _ h => h, fun _ => rfl⟩

theorem Flushes.flush (h : s.Flushes) : s.flush = .ok () := by
  rw [Sink.flush, h]

theorem progress_go_of_ne_zero {uptake : Nat → Nat → Nat}
    (h : ∀ total offered, offered ≠ 0 → uptake total offered ≠ 0) (total offered done : Nat) :
    progress.go uptake total offered done = done + offered := by
  induction offered using Nat.strongRecOn generalizing total done with
  | ind offered ih =>
    rw [progress.go]
    by_cases h0 : offered = 0
    · rw [dif_pos h0, h0]
      rfl
    · have htake := h total offered h0
      have hn : min (uptake total offered) offered ≠ 0 := by omega
      rw [dif_neg h0, dif_neg hn, ih _ (by omega)]
      omega

theorem Willing.writeAll (h : s.Willing) (data : Bytes) :
    s.writeAll data = (.ok (), { s with taken := s.taken ++ data }) := by
  rw [Sink.writeAll]
  by_cases h0 : data = []
  · rw [if_pos h0, h0, List.append_nil]
  · have hall : progress s.uptake s.taken.length data.length = data.length :=
      (progress_go_of_ne_zero h.uptake _ _ 0).trans (Nat.zero_add _)
    simp only [if_neg h0, h.isShut, hall, List.take_length, Bool.and_false, Bool.false_eq_true,
      if_false, if_true]

theorem Willing.append (h : s.Willing) (data : Bytes) :
    ({ s with taken := s.taken ++ data } : Sink).Willing := ⟨h.isShut, h.uptake, h.flushes⟩

theorem Willing.writeFrame (h : s.Willing) (kind : MessageType) (payload : Bytes) :
    s.writeFrame kind payload =
      (.ok (), { s with taken := s.taken ++ FrameHeader.frame kind payload }) := by
  simp only [Sink.writeFrame, h.writeAll, (h.append _).writeAll, List.append_assoc,
    (h.append _).flushes.flush, FrameHeader.frame]

/-- A message that is sent goes out as one frame. -/
theorem Willing.sendMessage (h : s.Willing) {m : Message} {payload : Bytes}
    (he : m.encode = .ok payload) : s.sendMessage m =
      (.ok (), { s with taken := s.taken ++ FrameHeader.frame m.type payload }) := by
  simp only [Sink.sendMessage, he, h.writeFrame]

end Sink

/-! ## Reading -/

namespace FrameReader

variable {r : FrameReader} {header : FrameHeader} {payload rest : Bytes}

/-- Looking at a header that is there gives it and consumes nothing. -/
theorem peek_of_unread (h : r.unread = header.encode ++ rest) :
    ∃ source : Source, r.peek = (.ok header, ⟨some header, source⟩) ∧ source.unread = rest := by
  rw [unread] at h
  rw [peek]
  cases hp : r.pending with
  | some header' =>
    rw [hp, Option.map_some, Option.getD_some] at h
    obtain ⟨he, hrest⟩ := List.append_inj h (by simp)
    obtain rfl := FrameHeader.encode_inj he
    refine ⟨r.source, ?_, hrest⟩
    simp only
    rw [← hp]
  | none =>
    rw [hp, Option.map_none, Option.getD_none, List.nil_append] at h
    have hle : FrameHeader.width ≤ r.source.unread.length := by
      rw [h, List.length_append, FrameHeader.length_encode]
      exact Nat.le_add_right _ _
    obtain ⟨t, hread, ht, -⟩ := Source.readExact_ok hle
    have htake : r.source.unread.take FrameHeader.width = header.encode := by
      rw [h]
      exact List.take_left' header.length_encode
    have hdrop : r.source.unread.drop FrameHeader.width = rest := by
      rw [h]
      exact List.drop_left' header.length_encode
    refine ⟨t, ?_, ht.trans hdrop⟩
    simp only [hread, htake, FrameHeader.decode_encode]

/-- A whole frame is consumed, whatever part of its payload is kept. -/
theorem receive_frame (h : r.unread = header.encode ++ (payload ++ rest))
    (hl : header.length.toNat = payload.length) (limit : Nat) :
    ∃ source : Source, r.receive limit = (.ok (header, payload.take limit), ⟨none, source⟩) ∧
      source.unread = rest := by
  obtain ⟨s, hpeek, hs⟩ := peek_of_unread h
  have hlen : s.unread.length = payload.length + rest.length := by rw [hs, List.length_append]
  obtain ⟨t, hkeep, ht, -⟩ := Source.readExact_ok (s := s)
    (n := min payload.length limit) (by omega)
  have htlen : t.unread.length = s.unread.length - min payload.length limit := by
    rw [ht, List.length_drop]
  obtain ⟨u, hskip, hu, -⟩ := Source.readExact_ok (s := t)
    (n := payload.length - min payload.length limit) (by omega)
  refine ⟨u, ?_, ?_⟩
  · simp only [receive, hpeek, hl, hkeep, hskip, hs]
    rw [List.take_append_of_le_length (Nat.min_le_left _ _), Nat.min_comm,
      ← List.take_eq_take_min]
  · rw [hu, ht, List.drop_drop, Nat.add_sub_cancel' (Nat.min_le_left _ _), hs, List.drop_left]

/-- A message whose frame is there is read, if its payload is no longer than the limit. -/
theorem next_frame {m : Message} (hd : Message.decode m.type payload = .ok m)
    (hlt : payload.length < 2 ^ 64) {limit : Nat} (hle : payload.length ≤ limit)
    (h : r.unread = FrameHeader.frame m.type payload ++ rest) :
    ∃ r', r.next limit = (.ok m, r') ∧ r'.unread = rest := by
  have hl : (FrameHeader.new m.type (UInt64.ofNat payload.length)).length.toNat =
      payload.length := by
    rw [FrameHeader.new, UInt64.toNat_ofNat', Nat.mod_eq_of_lt hlt]
  rw [FrameHeader.frame, List.append_assoc] at h
  obtain ⟨source, hreceive, hsource⟩ := receive_frame h hl limit
  refine ⟨⟨none, source⟩, ?_, hsource⟩
  have hinterpret : interpret (FrameHeader.new m.type (UInt64.ofNat payload.length)) payload =
      .ok m := by
    simp only [interpret, FrameHeader.messageType, FrameHeader.new, MessageType.ofByte_toByte]
    exact hd
  simp only [next, hreceive, List.take_of_length_le hle, hinterpret]

end FrameReader

end FileMesh
