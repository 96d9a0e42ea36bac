import FileMesh.Proofs.Frames

/-!
# Reading frame after frame

A stream of whole frames, cut anywhere, is read by looking at headers, by taking frames and by
taking messages, in any order and with any limits. Only the bytes count. Looking shows the next
frame and consumes nothing; every other call consumes exactly the next frame, also when it keeps a
part of the payload only or refuses it. After the last frame the stream is closed.
-/

namespace FileMesh

/-- A header, whose kind may be any byte, and a payload of the length it declares. -/
structure Frame where
  header : FrameHeader
  payload : Bytes
  length_eq : header.length.toNat = payload.length

namespace FrameReader

/-- What can be asked of a reader: the next header, the next frame with at most `limit` bytes of its
payload, or the message in at most `limit` bytes of the next payload. -/
inductive Call where
  | peek
  | receive (limit : Nat)
  | next (limit : Nat)
deriving DecidableEq, Repr

/-- What a reader answers unless it fails. Of a frame it gives the part of the payload that was
kept. -/
inductive Reply where
  | header (header : FrameHeader)
  | frame (header : FrameHeader) (kept : Bytes)
  | message (message : Message)
deriving DecidableEq, Repr

/-- Whether a call consumes a frame. -/
def Call.consumes : Call → Bool
  | peek => false
  | _ => true

/-- The answer to a call, and the reader afterwards. -/
def ask (r : FrameReader) : Call → Except FrameError Reply × FrameReader
  | .peek => (r.peek.1.map .header, r.peek.2)
  | .receive limit => ((r.receive limit).1.map fun f => .frame f.1 f.2, (r.receive limit).2)
  | .next limit => ((r.next limit).1.map .message, (r.next limit).2)

/-- The reader after any number of calls. -/
def askAll (r : FrameReader) (calls : List Call) : FrameReader :=
  calls.foldl (fun r c => (r.ask c).2) r

end FrameReader

namespace Frame

open FrameReader

/-- The bytes of a frame on the wire. -/
def bytes (f : Frame) : Bytes := f.header.encode ++ f.payload

/-- The answer that a frame gives. -/
def reply (f : Frame) : Call → Except FrameError Reply
  | .peek => .ok (.header f.header)
  | .receive limit => .ok (.frame f.header (f.payload.take limit))
  | .next limit => ((interpret f.header (f.payload.take limit)).mapError .protocol).map .message

end Frame

namespace FrameReader

variable {r : FrameReader} {f : Frame} {frames : List Frame} {c : Call}

/-! ## The end of a stream -/

theorem ending_peek (r : FrameReader) : r.peek.2.source.ending = r.source.ending := by
  rw [peek]
  split
  · rfl
  · have h := r.source.ending_readExact FrameHeader.width
    split <;> rename_i hs <;> rw [hs] at h <;> exact h

theorem ending_receive (r : FrameReader) (limit : Nat) :
    (r.receive limit).2.source.ending = r.source.ending := by
  have hpeek := r.ending_peek
  rw [receive]
  split
  · rename_i hp
    rw [hp] at hpeek
    exact hpeek
  · rename_i header r₁ hp
    rw [hp] at hpeek
    have hkeep := r₁.source.ending_readExact (min header.length.toNat limit)
    dsimp only
    split
    · rename_i hk
      rw [hk] at hkeep
      exact hkeep.trans hpeek
    · rename_i source hk
      rw [hk] at hkeep
      have hskip := source.ending_readExact
        (header.length.toNat - min header.length.toNat limit)
      split <;> rename_i hs <;> rw [hs] at hskip <;> exact hskip.trans (hkeep.trans hpeek)

theorem next_snd (r : FrameReader) (limit : Nat) : (r.next limit).2 = (r.receive limit).2 := by
  rw [next]
  split
  · rename_i hr
    rw [hr]
  · rename_i hr
    rw [hr]
    split <;> rfl

theorem ending_ask (r : FrameReader) (c : Call) :
    (r.ask c).2.source.ending = r.source.ending := by
  cases c with
  | peek => exact r.ending_peek
  | receive limit => exact r.ending_receive limit
  | next limit =>
    exact (congrArg (·.source.ending) (r.next_snd limit)).trans (r.ending_receive limit)

/-! ## One call -/

/-- Exactly these frames are before the reader, and the stream is closed after them. -/
structure Aligned (r : FrameReader) (frames : List Frame) : Prop where
  unread : r.unread = frames.flatMap Frame.bytes
  ending : r.source.ending = .closed

/-- A stream that has no whole header left is closed, and what was left is lost. -/
theorem peek_of_closed (h : r.unread.length < FrameHeader.width) (he : r.source.ending = .closed) :
    ∃ r', r.peek = (.error .closed, r') ∧ r'.unread = [] := by
  rw [FrameReader.unread, List.length_append] at h
  have hpending : r.pending = none := by
    cases hp : r.pending with
    | none => rfl
    | some header =>
      rw [hp, Option.map_some, Option.getD_some, FrameHeader.length_encode] at h
      omega
  have hshort : r.source.unread.length < FrameHeader.width := by omega
  refine ⟨⟨none, { r.source with segments := [] }⟩, ?_, rfl⟩
  simp only [peek, hpending, Source.readExact_short hshort, he]

/-- So it is closed, whatever is asked. -/
theorem ask_of_closed (h : r.unread.length < FrameHeader.width) (he : r.source.ending = .closed)
    (c : Call) : (r.ask c).1 = .error .closed ∧ (r.ask c).2.unread = [] := by
  obtain ⟨r', hpeek, hunread⟩ := peek_of_closed h he
  have hreceive (limit : Nat) : r.receive limit = (.error .closed, r') := by
    simp only [receive, hpeek]
  cases c with
  | peek =>
    simp only [ask, hpeek]
    exact ⟨rfl, hunread⟩
  | receive limit =>
    simp only [ask, hreceive]
    exact ⟨rfl, hunread⟩
  | next limit =>
    simp only [ask, next, hreceive]
    exact ⟨rfl, hunread⟩

theorem ask_of_nil (h : r.Aligned []) (c : Call) :
    (r.ask c).1 = .error .closed ∧ (r.ask c).2.unread = [] :=
  ask_of_closed (by rw [h.unread]; decide) h.ending c

/-- A frame that is there answers, and is consumed unless it was only looked at. -/
theorem ask_of_whole {rest : Bytes} (h : r.unread = f.bytes ++ rest) (c : Call) :
    (r.ask c).1 = f.reply c ∧
      (r.ask c).2.unread = if c.consumes then rest else f.bytes ++ rest := by
  have hunread : r.unread = f.header.encode ++ (f.payload ++ rest) := by
    rw [h, Frame.bytes, List.append_assoc]
  cases c with
  | peek =>
    obtain ⟨source, hpeek, hsource⟩ := peek_of_unread hunread
    simp only [ask, hpeek]
    refine ⟨rfl, ?_⟩
    rw [FrameReader.unread, hsource]
    exact hunread.symm.trans h
  | receive limit =>
    obtain ⟨source, hreceive, hsource⟩ := receive_frame hunread f.length_eq limit
    simp only [ask, hreceive]
    exact ⟨rfl, hsource⟩
  | next limit =>
    obtain ⟨source, hreceive, hsource⟩ := receive_frame hunread f.length_eq limit
    have hsnd := r.next_snd limit
    rw [hreceive] at hsnd
    refine ⟨?_, (congrArg FrameReader.unread hsnd).trans hsource⟩
    simp only [ask, next, hreceive, Frame.reply]
    cases interpret f.header (f.payload.take limit) <;> rfl

theorem ask_of_cons (h : r.Aligned (f :: frames)) (c : Call) :
    (r.ask c).1 = f.reply c ∧ (r.ask c).2.unread =
      ((f :: frames).drop (if c.consumes then 1 else 0)).flatMap Frame.bytes := by
  obtain ⟨hanswer, hunread⟩ := ask_of_whole (h.unread.trans List.flatMap_cons) c
  refine ⟨hanswer, hunread.trans ?_⟩
  cases c.consumes <;> rfl

/-- A call leaves the reader at the beginning of a frame. -/
theorem Aligned.ask (h : r.Aligned frames) (c : Call) :
    (r.ask c).2.Aligned (frames.drop (if c.consumes then 1 else 0)) where
  unread := by
    cases frames with
    | nil => rw [(ask_of_nil h c).2, List.drop_nil, List.flatMap_nil]
    | cons f frames => exact (ask_of_cons h c).2
  ending := (r.ending_ask c).trans h.ending

/-! ## Any number of calls -/

/-- So does any number of calls, as many frames further on as there were calls that consume one. -/
theorem Aligned.askAll (h : r.Aligned frames) (calls : List Call) :
    (r.askAll calls).Aligned (frames.drop (calls.countP Call.consumes)) := by
  induction calls generalizing r frames with
  | nil => exact h
  | cons c calls ih =>
    have hrest := ih (h.ask c)
    rw [List.drop_drop] at hrest
    rw [List.countP_cons, Nat.add_comm]
    exact hrest

/-- However whole frames are cut, after any calls the next one is answered by the frame that comes
after those that were consumed, and exactly that one is consumed unless the call only looks. After
the last frame every answer is that the stream is closed. -/
theorem ask_askAll {segments : List Bytes} (h : segments.flatten = frames.flatMap Frame.bytes)
    (before : List Call) (c : Call) :
    let r := (ofSource ⟨segments, .closed⟩).askAll before
    let k := before.countP Call.consumes
    r.unread = (frames.drop k).flatMap Frame.bytes ∧
      (∀ f, frames[k]? = some f → (r.ask c).1 = f.reply c) ∧
      (frames.length ≤ k → (r.ask c).1 = .error .closed) ∧
      (r.ask c).2.unread =
        (frames.drop (if c.consumes then k + 1 else k)).flatMap Frame.bytes := by
  intro r k
  have hstart : (ofSource ⟨segments, .closed⟩).Aligned frames := ⟨h, rfl⟩
  have hr : r.Aligned (frames.drop k) := hstart.askAll before
  have hnext := (hr.ask c).unread
  refine ⟨hr.unread, ?_, ?_, ?_⟩
  · intro f hf
    obtain ⟨hk, rfl⟩ := List.getElem?_eq_some_iff.1 hf
    rw [List.drop_eq_getElem_cons hk] at hr
    exact (ask_of_cons hr c).1
  · intro hk
    rw [List.drop_of_length_le hk] at hr
    exact (ask_of_nil hr c).1
  · rw [hnext, List.drop_drop]
    cases c.consumes <;> rfl

/-- Two frames, one of no known kind, in pieces. -/
theorem ask_askAll_unknown :
    let frames : List Frame := [⟨⟨0x42, 3⟩, [1, 2, 3], rfl⟩, ⟨⟨0x0D, 0⟩, [], rfl⟩]
    let segments : List Bytes :=
      [[0x42, 0, 0], [0, 0, 0, 0, 0, 3, 1], [2, 3, 0x0D], [0, 0, 0, 0, 0, 0, 0, 0]]
    let r := ofSource ⟨segments, .closed⟩
    segments.flatten = frames.flatMap Frame.bytes ∧
      ((r.askAll [.peek]).ask (.receive 2)).1 = .ok (.frame ⟨0x42, 3⟩ [1, 2]) ∧
      ((r.askAll [.peek]).ask (.next 1)).1 = .error (.protocol (.unknownType 0x42)) ∧
      ((r.askAll [.next 1, .peek]).ask (.next 0)).1 = .ok (.message .requestAddrSelf) ∧
      ((r.askAll [.next 1, .next 0]).ask .peek).1 = .error .closed := by
  intro frames segments r
  have h : segments.flatten = frames.flatMap Frame.bytes := by decide
  refine ⟨h, ?_, ?_, ?_, ?_⟩
  · exact (ask_askAll h [.peek] (.receive 2)).2.1 _ rfl
  · exact (ask_askAll h [.peek] (.next 1)).2.1 _ rfl
  · exact (ask_askAll h [.next 1, .peek] (.next 0)).2.1 _ rfl
  · exact (ask_askAll h [.next 1, .next 0] .peek).2.2.1 (by decide)

end FrameReader

end FileMesh
