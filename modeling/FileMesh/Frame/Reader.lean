import FileMesh.Frame.Source
import FileMesh.IoError
import FileMesh.Message

/-!
# Reading frames

A reader can look at the next header without consuming its frame. A payload longer than the caller
accepts is cut to the accepted length and the excess is discarded, so that the stream stays aligned
on frame boundaries. A payload that is no message is refused after its frame was consumed, and
reading can go on; the end of the stream is final.
-/

namespace FileMesh

/-- Why reading or writing a frame failed: the remote end closed the stream, the stream broke, or
what it carries is refused. -/
inductive FrameError where
  | closed
  | transport (cause : IoError)
  | protocol (cause : WireError)
deriving DecidableEq, Repr, Inhabited

namespace FrameError

/-- Whether the connection can no longer be used. -/
def isFatal : FrameError → Bool
  | protocol _ => false
  | _ => true

def message : FrameError → String
  | closed => "connection closed"
  | transport cause => "transport error: " ++ cause.message
  | protocol cause => "protocol error: " ++ cause.message

/-- What is shown for a failure and, after it, for its cause. -/
def trace : FrameError → String
  | closed => message .closed
  | transport cause => message (.transport cause) ++ ": " ++ cause.message
  | protocol cause => message (.protocol cause) ++ ": " ++ cause.message

end FrameError

/-- The reading half of a connection. A header that was looked at is `pending` until its frame is
consumed, and `source` has the bytes after it. -/
structure FrameReader where
  pending : Option FrameHeader
  source : Source
deriving DecidableEq, Repr, Inhabited

namespace FrameReader

def ofSource (source : Source) : FrameReader := ⟨none, source⟩

/-- Every byte whose frame is not consumed yet. -/
def unread (r : FrameReader) : Bytes :=
  (r.pending.map FrameHeader.encode).getD [] ++ r.source.unread

/-- The next header. Its frame is not consumed. A stream that ends before a whole header is closed.
-/
def peek (r : FrameReader) : Except FrameError FrameHeader × FrameReader :=
  match r.pending with
  | some header => (.ok header, r)
  | none =>
    match r.source.readExact FrameHeader.width with
    | (.ok bytes, source) =>
      let header := FrameHeader.decode bytes
      (.ok header, ⟨some header, source⟩)
    | (.error .closed, source) => (.error .closed, ⟨none, source⟩)
    | (.error .reset, source) => (.error (.transport .connectionReset), ⟨none, source⟩)

/-- The failure of a read inside a payload. -/
def broken (end_ : StreamEnd) (atEnd : IoError) : FrameError :=
  match end_ with
  | .closed => .transport atEnd
  | .reset => .transport .connectionReset

/-- Consumes the next frame and keeps at most `limit` bytes of its payload. -/
def receive (r : FrameReader) (limit : Nat) :
    Except FrameError (FrameHeader × Bytes) × FrameReader :=
  match r.peek with
  | (.error e, r) => (.error e, r)
  | (.ok header, r) =>
    let keep := min header.length.toNat limit
    match r.source.readExact keep with
    | (.error e, source) => (.error (broken e .endInPayload), ⟨none, source⟩)
    | (.ok payload, source) =>
      match source.readExact (header.length.toNat - keep) with
      | (.error e, source) => (.error (broken e .endInExcess), ⟨none, source⟩)
      | (.ok _, source) => (.ok (header, payload), ⟨none, source⟩)

/-- The message that a frame carries. -/
def interpret (header : FrameHeader) (payload : Bytes) : Except WireError Message := do
  let kind ← header.messageType
  Message.decode kind payload

/-- Consumes the next frame and decodes it, from at most `limit` bytes of its payload. -/
def next (r : FrameReader) (limit : Nat) : Except FrameError Message × FrameReader :=
  match r.receive limit with
  | (.error e, r) => (.error e, r)
  | (.ok (header, payload), r) =>
    match interpret header payload with
    | .ok message => (.ok message, r)
    | .error e => (.error (.protocol e), r)

theorem length_unread_peek {r r' : FrameReader} {header : FrameHeader}
    (h : r.peek = (.ok header, r')) :
    r'.unread.length = r.unread.length ∧
      r'.unread.length = FrameHeader.width + r'.source.unread.length := by
  simp only [peek] at h
  split at h
  · rename_i k hk
    cases h
    simp [unread, hk]
  · rename_i hk
    split at h
    · rename_i bytes source hs
      cases h
      have hn : source.unread.length = r.source.unread.length - FrameHeader.width := by
        rw [← Source.length_unread_readExact, hs]
      have hle : FrameHeader.width ≤ r.source.unread.length := by
        rcases Nat.lt_or_ge r.source.unread.length FrameHeader.width with hlt | hge
        · rw [Source.readExact_short hlt] at hs
          cases hs
        · exact hge
      simp only [unread, hk, Option.map_some, Option.getD_some, Option.map_none, Option.getD_none,
        List.nil_append, List.length_append, FrameHeader.length_encode]
      exact ⟨by omega, trivial⟩
    · cases h
    · cases h

theorem length_unread_receive {r r' : FrameReader} {limit : Nat} {frame : FrameHeader × Bytes}
    (h : r.receive limit = (.ok frame, r')) : r'.unread.length < r.unread.length := by
  simp only [receive] at h
  split at h
  · cases h
  · rename_i header r₁ hp
    have hl := length_unread_peek hp
    split at h
    · cases h
    · rename_i payload s₁ h₁
      split at h
      · cases h
      · rename_i rest s₂ h₂
        cases h
        have n₁ := Source.length_unread_readExact r₁.source (min header.length.toNat limit)
        have n₂ := Source.length_unread_readExact s₁
          (header.length.toNat - min header.length.toNat limit)
        rw [h₁] at n₁
        rw [h₂] at n₂
        simp only [unread, Option.map_none, Option.getD_none, List.nil_append,
          FrameHeader.width] at *
        omega

/-- Reading goes on after a message and after one that is refused; then fewer bytes are left. -/
theorem length_unread_next {r r' : FrameReader} {limit : Nat} {result : Except FrameError Message}
    (h : r.next limit = (result, r')) (hr : ∀ e, result = .error e → e.isFatal = false) :
    r'.unread.length < r.unread.length := by
  simp only [next] at h
  split at h
  · rename_i e r₁ hc
    cases h
    have he := hr e rfl
    cases e with
    | closed => cases he
    | transport cause => cases he
    | protocol cause =>
      simp only [receive] at hc
      split at hc
      · rename_i e r₂ hp
        cases hc
        simp only [peek] at hp
        split at hp
        · cases hp
        · split at hp <;> cases hp
      · split at hc
        · rename_i e s he₁
          cases e <;> cases hc
        · split at hc
          · rename_i e s he₁
            cases e <;> cases hc
          · cases hc
  · rename_i header payload r₁ hc
    have := length_unread_receive hc
    split at h <;> cases h <;> exact this

/-- The messages up to the first failure, and that failure. -/
def readAll (r : FrameReader) (limit : Nat) : List Message × FrameError :=
  match h : r.next limit with
  | (.error e, _) => ([], e)
  | (.ok message, rest) =>
    have : rest.unread.length < r.unread.length := length_unread_next h (fun _ he => nomatch he)
    let (messages, e) := readAll rest limit
    (message :: messages, e)
termination_by r.unread.length

end FrameReader

end FileMesh
