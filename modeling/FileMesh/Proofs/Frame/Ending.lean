import FileMesh.Proofs.Frame.Reading
import FileMesh.Proofs.Wire.Decoded

/-!
# Streams that end anywhere

Every stream of bytes is a number of whole frames and what is left of one more: fewer bytes than a
header has, or a header with too few bytes behind it. The whole frames are read as if nothing
followed. A rest that has no whole header is taken for the end of the stream, whether or not there
was a part of one; a payload that ends too early breaks the stream, but only the first call that
meets its end is told so. When a reader is told that the stream is closed, all of its bytes are
gone, and they end on a frame boundary just when nothing was left of a frame.
-/

namespace FileMesh

theorem FrameHeader.encode_decode_append {b : Bytes} (h : width ≤ b.length) :
    (decode b).encode ++ b.drop width = b := by
  have hlt : Bytes.toNatBE (b.slice 1 8) < 2 ^ 64 := Bytes.toNatBE_slice_lt b 1 8
  rw [encode, decode, UInt64.toNat_ofNat', Nat.mod_eq_of_lt hlt, Bytes.ofNatBE_toNatBE_slice h]
  cases b with
  | nil => exact absurd h (by decide)
  | cons kind rest => exact congrArg (kind :: ·) (List.take_append_drop 8 rest)

/-- What is left of a frame that is not whole: fewer bytes than a header has, or none, or a header
and fewer bytes than it declares. -/
inductive FrameTail where
  | inHeader (part : Bytes) (short : part.length < FrameHeader.width)
  | inPayload (header : FrameHeader) (part : Bytes) (short : part.length < header.length.toNat)

/-- Whole frames and what is left of one more. -/
structure FrameStream where
  frames : List Frame
  tail : FrameTail

open FrameReader

namespace FrameTail

/-- The bytes that are left. -/
def bytes : FrameTail → Bytes
  | inHeader part _ => part
  | inPayload header part _ => header.encode ++ part

/-- Nothing is left. -/
def nothing : FrameTail := inHeader [] (by decide)

/-- The answer of a reader that has consumed the whole frames. -/
def reply : FrameTail → Call → Except FrameError Reply
  | inHeader _ _, _ => .error .closed
  | inPayload header _ _, .peek => .ok (.header header)
  | inPayload header part _, .receive limit => .error (.transport (breach header part.length limit))
  | inPayload header part _, .next limit => .error (.transport (breach header part.length limit))

/-- What is left after a call. -/
def after : FrameTail → Call → FrameTail
  | inHeader _ _, _ => nothing
  | inPayload header part short, c => if c.consumes then nothing else inPayload header part short

/-- The stream was cut inside a header, not between two frames. -/
def CutsHeader (t : FrameTail) : Prop := t.bytes ≠ [] ∧ t.bytes.length < FrameHeader.width

/-- No whole frame begins what is left. -/
theorem bytes_ne_append (t : FrameTail) (f : Frame) (rest : Bytes) : t.bytes ≠ f.bytes ++ rest := by
  intro h
  rw [Frame.bytes, List.append_assoc] at h
  cases t with
  | inHeader part short =>
    have hlength := congrArg List.length h
    rw [bytes, List.length_append, FrameHeader.length_encode] at hlength
    omega
  | inPayload header part short =>
    rw [bytes] at h
    obtain ⟨hheader, hpart⟩ := List.append_inj h (by simp)
    obtain rfl := FrameHeader.encode_inj hheader
    rw [hpart, List.length_append, ← f.length_eq] at short
    omega

theorem reply_after_of_consumes (t : FrameTail) {d : Call} (hd : d.consumes = true) (c : Call) :
    (t.after d).reply c = .error .closed := by
  cases t with
  | inHeader part short => rfl
  | inPayload header part short => rw [after, if_pos hd]; rfl

theorem reply_after_of_not_consumes (t : FrameTail) {d : Call} (hd : d.consumes = false)
    (c : Call) : (t.after d).reply c = t.reply c := by
  cases t with
  | inHeader part short => rfl
  | inPayload header part short => rw [after, hd]; rfl

end FrameTail

namespace FrameStream

variable {s : FrameStream} {c : Call}

/-- The bytes of a stream. -/
def bytes (s : FrameStream) : Bytes := s.frames.flatMap Frame.bytes ++ s.tail.bytes

/-- What a reader answers. -/
def reply (s : FrameStream) (c : Call) : Except FrameError Reply :=
  match s.frames with
  | [] => s.tail.reply c
  | f :: _ => f.reply c

/-- What is before a reader after a call. -/
def after (s : FrameStream) (c : Call) : FrameStream :=
  match s.frames with
  | [] => ⟨[], s.tail.after c⟩
  | _ :: frames => if c.consumes then ⟨frames, s.tail⟩ else s

/-- What is before a reader after any number of calls. -/
def afterAll (s : FrameStream) (calls : List Call) : FrameStream := calls.foldl after s

/-- The answer to a call when so many calls before it consumed a frame: that of the next frame, or
that of what follows the last one. Once this was consumed as well, the stream is closed. -/
def answer (s : FrameStream) (consumed : Nat) (c : Call) : Except FrameError Reply :=
  match s.frames[consumed]? with
  | some f => f.reply c
  | none => if consumed = s.frames.length then s.tail.reply c else .error .closed

/-! ## Every sequence of bytes -/

/-- Every sequence of bytes is a number of whole frames and a rest. -/
theorem exists_bytes_eq (b : Bytes) : ∃ s : FrameStream, s.bytes = b := by
  induction hn : b.length using Nat.strongRecOn generalizing b with
  | ind n ih =>
    by_cases hheader : b.length < FrameHeader.width
    · exact ⟨⟨[], .inHeader b hheader⟩, rfl⟩
    · have hsplit := FrameHeader.encode_decode_append (Nat.le_of_not_lt hheader)
      obtain ⟨header, hdecode⟩ : ∃ header, FrameHeader.decode b = header := ⟨_, rfl⟩
      obtain ⟨rest, hdrop⟩ : ∃ rest, b.drop FrameHeader.width = rest := ⟨_, rfl⟩
      rw [hdecode, hdrop] at hsplit
      by_cases hpayload : rest.length < header.length.toNat
      · exact ⟨⟨[], .inPayload header rest hpayload⟩, hsplit⟩
      · have hwhole : header.length.toNat = (rest.take header.length.toNat).length := by
          rw [List.length_take_of_le (Nat.le_of_not_lt hpayload)]
        have hshorter : (rest.drop header.length.toNat).length < n := by
          rw [← hn, ← hsplit, List.length_drop, List.length_append, FrameHeader.length_encode]
          have hwidth : 0 < FrameHeader.width := by decide
          omega
        obtain ⟨s, hs⟩ := ih _ hshorter _ rfl
        refine ⟨⟨⟨header, rest.take header.length.toNat, hwhole⟩ :: s.frames, s.tail⟩, ?_⟩
        rw [bytes] at hs ⊢
        rw [List.flatMap_cons, List.append_assoc, hs, Frame.bytes, List.append_assoc,
          List.take_append_drop, hsplit]

/-- A stream is cut into frames in one way only, so it is whole frames just when nothing is left. -/
theorem exists_flatMap_eq_iff :
    (∃ frames : List Frame, s.bytes = frames.flatMap Frame.bytes) ↔ s.tail.bytes = [] := by
  constructor
  · rintro ⟨whole, h⟩
    obtain ⟨frames, tail⟩ := s
    induction frames generalizing whole with
    | nil =>
      cases whole with
      | nil => exact h
      | cons f whole => exact absurd h (tail.bytes_ne_append f _)
    | cons f frames ih =>
      rw [bytes, List.flatMap_cons, List.append_assoc, Frame.bytes, List.append_assoc] at h
      cases whole with
      | nil => exact absurd h (List.append_ne_nil_of_left_ne_nil (List.cons_ne_nil _ _) _)
      | cons g whole =>
        rw [List.flatMap_cons, Frame.bytes, List.append_assoc] at h
        obtain ⟨hheader, hrest⟩ := List.append_inj h (by simp)
        have hlength : f.payload.length = g.payload.length := by
          rw [← f.length_eq, ← g.length_eq, FrameHeader.encode_inj hheader]
        exact ih whole (List.append_inj hrest hlength).2
  · intro h
    exact ⟨s.frames, by rw [bytes, h, List.append_nil]⟩

/-! ## Answers -/

/-- Only the number of frames that were consumed counts. -/
theorem reply_afterAll (s : FrameStream) (calls : List Call) (c : Call) :
    (s.afterAll calls).reply c = s.answer (calls.countP Call.consumes) c := by
  induction calls generalizing s with
  | nil => obtain ⟨_ | _, tail⟩ := s <;> rfl
  | cons d calls ih =>
    rw [afterAll, List.foldl_cons, ← afterAll, ih, List.countP_cons]
    obtain ⟨frames, tail⟩ := s
    cases frames with
    | nil =>
      cases hd : d.consumes with
      | true =>
        simp only [answer, after, List.getElem?_nil, tail.reply_after_of_consumes hd, ite_self]
        rfl
      | false =>
        simp only [answer, after, tail.reply_after_of_not_consumes hd]
        rfl
    | cons f frames =>
      cases hd : d.consumes with
      | true =>
        simp only [answer, after, hd, if_true, List.getElem?_cons_succ, List.length_cons,
          Nat.add_right_cancel_iff]
      | false =>
        simp only [after, hd]
        rfl

theorem isFatal_of_frame_reply {f : Frame} {e : FrameError} (h : f.reply c = .error e) :
    e.isFatal = false := by
  cases c with
  | peek => cases h
  | receive limit => cases h
  | next limit =>
    rw [Frame.reply] at h
    cases hmessage : interpret f.header (f.payload.take limit) with
    | ok m => rw [hmessage] at h; cases h
    | error e => rw [hmessage] at h; cases h; rfl

/-- A stream is closed when all that is left is less than a header, and that is lost then. -/
theorem reply_eq_closed_iff : s.reply c = .error .closed ↔
    s.frames = [] ∧ s.tail.bytes.length < FrameHeader.width := by
  obtain ⟨frames, tail⟩ := s
  cases frames with
  | cons f frames =>
    refine ⟨fun h => ?_, fun h => nomatch h.1⟩
    cases isFatal_of_frame_reply h
  | nil =>
    cases tail with
    | inHeader part short => exact ⟨fun _ => ⟨rfl, short⟩, fun _ => rfl⟩
    | inPayload header part short =>
      have hlong : ¬ (FrameTail.inPayload header part short).bytes.length < FrameHeader.width := by
        rw [FrameTail.bytes, List.length_append, FrameHeader.length_encode]
        omega
      refine ⟨fun h => ?_, fun h => absurd h.2 hlong⟩
      cases c <;> cases h

theorem bytes_after_of_closed (h : s.reply c = .error .closed) : (s.after c).bytes = [] := by
  obtain ⟨frames, tail⟩ := s
  obtain ⟨rfl, hshort⟩ : frames = [] ∧ _ := reply_eq_closed_iff.1 h
  cases tail with
  | inHeader part short => rfl
  | inPayload header part short =>
    rw [FrameTail.bytes, List.length_append, FrameHeader.length_encode] at hshort
    omega

/-- As long as no call fails for good, nothing is read of what follows the frames. -/
theorem tail_after_of_unfatal (h : ∀ e, s.reply c = .error e → e.isFatal = false) :
    (s.after c).tail = s.tail := by
  obtain ⟨frames, tail⟩ := s
  cases frames with
  | cons f frames => rw [after]; cases c.consumes <;> rfl
  | nil =>
    cases tail with
    | inHeader part short => cases h _ rfl
    | inPayload header part short =>
      cases c with
      | peek => rfl
      | receive limit => cases h _ rfl
      | next limit => cases h _ rfl

end FrameStream

/-! ## Reading -/

namespace FrameReader

variable {r : FrameReader} {s : FrameStream} {header : FrameHeader} {part : Bytes}

/-- This stream is before the reader, and the remote end closed it. -/
structure Awaits (r : FrameReader) (s : FrameStream) : Prop where
  unread : r.unread = s.bytes
  ending : r.source.ending = .closed

/-- The bytes consumed so far are whole frames. -/
def OnBoundary (stream : Bytes) (r : FrameReader) : Prop :=
  ∃ frames : List Frame, stream = frames.flatMap Frame.bytes ++ r.unread

/-- None of these calls fails for good. -/
def Unfailed (r : FrameReader) : List Call → Prop
  | [] => True
  | c :: calls => (∀ e, (r.ask c).1 = .error e → e.isFatal = false) ∧ (r.ask c).2.Unfailed calls

/-- A payload that ends too early is a failure for whoever asks for it. -/
theorem ask_of_cut (h : r.unread = header.encode ++ part)
    (short : part.length < header.length.toNat) (he : r.source.ending = .closed) (c : Call) :
    (r.ask c).1 = (FrameTail.inPayload header part short).reply c ∧
      (r.ask c).2.unread = ((FrameTail.inPayload header part short).after c).bytes := by
  cases c with
  | peek =>
    obtain ⟨source, hpeek, hsource⟩ := peek_of_unread h
    simp only [ask, hpeek]
    refine ⟨rfl, ?_⟩
    rw [unread, hsource]
    rfl
  | receive limit =>
    obtain ⟨r', hunread, hreceive⟩ := receive_of_cut h short limit
    rw [he] at hreceive
    simp only [ask, hreceive]
    exact ⟨rfl, hunread⟩
  | next limit =>
    obtain ⟨r', hunread, hreceive⟩ := receive_of_cut h short limit
    rw [he] at hreceive
    simp only [ask, next, hreceive]
    exact ⟨rfl, hunread⟩

/-- What a stream says is what a reader answers, and what it leaves is before the reader then. -/
theorem Awaits.ask (h : r.Awaits s) (c : Call) :
    (r.ask c).1 = s.reply c ∧ (r.ask c).2.Awaits (s.after c) := by
  suffices hask : (r.ask c).1 = s.reply c ∧ (r.ask c).2.unread = (s.after c).bytes from
    ⟨hask.1, hask.2, (r.ending_ask c).trans h.ending⟩
  obtain ⟨frames, tail⟩ := s
  cases frames with
  | nil =>
    cases tail with
    | inHeader part short => exact ask_of_closed (h.unread ▸ short) h.ending c
    | inPayload header part short => exact ask_of_cut h.unread short h.ending c
  | cons f frames =>
    have hunread := h.unread
    rw [FrameStream.bytes, List.flatMap_cons, List.append_assoc] at hunread
    obtain ⟨hanswer, hrest⟩ := ask_of_whole hunread c
    refine ⟨hanswer, hrest.trans ?_⟩
    rw [FrameStream.after]
    cases c.consumes with
    | true => rfl
    | false => exact hunread.symm.trans h.unread

theorem Awaits.askAll (h : r.Awaits s) (calls : List Call) :
    (r.askAll calls).Awaits (s.afterAll calls) := by
  induction calls generalizing r s with
  | nil => exact h
  | cons c calls ih => exact ih (h.ask c).2

theorem Awaits.tail_afterAll (h : r.Awaits s) {calls : List Call} (hcalls : r.Unfailed calls) :
    (s.afterAll calls).tail = s.tail := by
  induction calls generalizing r s with
  | nil => rfl
  | cons c calls ih =>
    obtain ⟨hanswer, hrest⟩ := h.ask c
    exact (ih hrest hcalls.2).trans (FrameStream.tail_after_of_unfatal (hanswer ▸ hcalls.1))

/-- The whole frames can be consumed without a failure. -/
theorem Awaits.exists_unfailed (h : r.Awaits s) :
    ∃ calls, r.Unfailed calls ∧ (r.askAll calls).Awaits ⟨[], s.tail⟩ := by
  obtain ⟨frames, tail⟩ := s
  induction frames generalizing r with
  | nil => exact ⟨[], trivial, h⟩
  | cons f frames ih =>
    obtain ⟨hanswer, hrest⟩ := h.ask (.receive 0)
    obtain ⟨calls, hcalls, hend⟩ := ih hrest
    exact ⟨.receive 0 :: calls, ⟨fun _ he => (nomatch hanswer.symm.trans he), hcalls⟩, hend⟩

/-- When the stream is said to be closed, all of its bytes are consumed. -/
theorem Awaits.onBoundary_iff {stream : FrameStream} (h : r.Awaits s) {c : Call}
    (hclosed : (r.ask c).1 = .error .closed) :
    OnBoundary stream.bytes (r.ask c).2 ↔ stream.tail.bytes = [] := by
  obtain ⟨hanswer, hrest⟩ := h.ask c
  have hnil := hrest.unread.trans (FrameStream.bytes_after_of_closed (hanswer.symm.trans hclosed))
  simp only [OnBoundary, hnil, List.append_nil]
  exact FrameStream.exists_flatMap_eq_iff

/-- However a stream is cut into segments, and wherever it ends, it is whole frames and a rest, and
a call is answered according to the number of frames consumed before it. It is told that the stream
is closed only when all bytes are consumed, and these are whole frames just when there is no rest.
So someone who stops at the first failure takes a stream that was cut for one that was closed
exactly when the rest is a part of a header. -/
theorem exists_closed_onBoundary_iff (segments : List Bytes) :
    let start := ofSource ⟨segments, .closed⟩
    ∃ s : FrameStream, s.bytes = segments.flatten ∧
      (∀ before c, ((start.askAll before).ask c).1 =
        s.answer (before.countP Call.consumes) c) ∧
      (∀ before c, ((start.askAll before).ask c).1 = .error .closed →
        ((start.askAll before).ask c).2.unread = [] ∧
          (OnBoundary segments.flatten ((start.askAll before).ask c).2 ↔ s.tail.bytes = [])) ∧
      ((∃ before c, start.Unfailed before ∧ ((start.askAll before).ask c).1 = .error .closed ∧
        ¬ OnBoundary segments.flatten ((start.askAll before).ask c).2) ↔ s.tail.CutsHeader) := by
  intro start
  obtain ⟨s, hs⟩ := FrameStream.exists_bytes_eq segments.flatten
  have hstart : start.Awaits s := ⟨hs.symm, rfl⟩
  refine ⟨s, hs, fun before c => ?_, fun before c hclosed => ?_, ?_, ?_⟩
  · rw [((hstart.askAll before).ask c).1, FrameStream.reply_afterAll]
  · have hrest := (hstart.askAll before).ask c
    rw [hrest.2.unread, FrameStream.bytes_after_of_closed (hrest.1.symm.trans hclosed), ← hs]
    exact ⟨rfl, (hstart.askAll before).onBoundary_iff hclosed⟩
  · rintro ⟨before, c, hbefore, hclosed, hboundary⟩
    have hrest := hstart.askAll before
    obtain ⟨-, hshort⟩ := FrameStream.reply_eq_closed_iff.1 ((hrest.ask c).1.symm.trans hclosed)
    rw [hstart.tail_afterAll hbefore] at hshort
    rw [← hs, hrest.onBoundary_iff hclosed] at hboundary
    exact ⟨hboundary, hshort⟩
  · rintro ⟨hne, hshort⟩
    obtain ⟨before, hbefore, hrest⟩ := hstart.exists_unfailed
    have hclosed : ((start.askAll before).ask .peek).1 = .error .closed :=
      (hrest.ask .peek).1.trans (FrameStream.reply_eq_closed_iff.2 ⟨rfl, hshort⟩)
    refine ⟨before, .peek, hbefore, hclosed, ?_⟩
    rw [← hs, hrest.onBoundary_iff hclosed]
    exact hne

/-- Of a stream that ends after three bytes, the first call is told that it is closed, and the bytes
consumed then are no whole frames. -/
theorem exists_closed_onBoundary_iff_cut :
    let r := ofSource ⟨[[0x0D, 0], [0]], .closed⟩
    (r.ask .peek).1 = .error .closed ∧ (r.ask .peek).2.unread = [] ∧
      ¬ OnBoundary [0x0D, 0, 0] (r.ask .peek).2 := by
  intro r
  have hclosed : (r.ask .peek).1 = .error .closed := by decide
  obtain ⟨s, hs, -, hends, -⟩ := exists_closed_onBoundary_iff [[0x0D, 0], [0]]
  obtain ⟨hunread, hboundary⟩ := hends [] .peek hclosed
  refine ⟨hclosed, hunread, fun h => ?_⟩
  -- Three bytes are too few for a frame, so all of them are left of one.
  have hlength : s.bytes.length = 3 := congrArg List.length hs
  rw [FrameStream.bytes, hboundary.1 h, List.append_nil] at hlength
  cases hframes : s.frames with
  | nil => rw [hframes] at hlength; cases hlength
  | cons f frames =>
    simp only [hframes, List.flatMap_cons, Frame.bytes, List.length_append,
      FrameHeader.length_encode] at hlength
    have hwidth : 3 < FrameHeader.width := by decide
    omega

/-- A payload of which one byte is missing breaks the stream, but only for the first who asks. -/
example :
    let r := ofSource ⟨[[0x0C, 0, 0, 0, 0, 0, 0, 0, 6, 127, 0, 0], [1, 0]], .closed⟩
    (r.ask (.next 6)).1 = .error (.transport .endInPayload) ∧
      ((r.askAll [.next 6]).ask (.next 6)).1 = .error .closed := by
  decide

end FrameReader

end FileMesh
