import FileMesh.Frame.Reader

/-!
# Writing frames

A sink takes the bytes of a write in pieces of its own choosing and may stop taking any. A frame
goes out as two writes, the header and the payload, each of them whole or failed, and is flushed
then; a message that cannot be encoded writes nothing. Whether a flush works and whether a sink that
was shut down still takes bytes is up to the sink.
-/

namespace FileMesh

/-- The writing half of a connection. What a write call takes and whether a flush fails depends on
how many bytes were `taken` so far. A call that takes none of what it is offered has failed; one
that takes more takes all of it. -/
structure Sink where
  uptake : Nat → Nat → Nat
  -- A call that takes none says so by a length of zero and not by an error.
  stalls : Bool
  flushFailure : Nat → Option IoError
  refusesShut : Bool
  taken : Bytes
  shutdowns : Nat

namespace Sink

/-- A sink that takes everything until it is shut down. -/
def unlimited : Sink := ⟨fun _ offered => offered, false, fun _ => none, true, [], 0⟩

/-- A sink with a total `budget` and a largest amount for each call, where given. -/
def limited (budget perWrite : Option Nat) (stalls : Bool) : Sink where
  uptake total offered :=
    let offered := (perWrite.map (min offered)).getD offered
    (budget.map fun b => min offered (b - total)).getD offered
  stalls := stalls
  flushFailure _ := none
  refusesShut := true
  taken := []
  shutdowns := 0

def isShut (s : Sink) : Bool := 0 < s.shutdowns

def shutdown (s : Sink) : Sink := { s with shutdowns := s.shutdowns + 1 }

/-- How many of `offered` bytes repeated write calls get across. -/
def progress (uptake : Nat → Nat → Nat) (total offered : Nat) : Nat :=
  go total offered 0
where
  go (total offered done : Nat) : Nat :=
    if _ : offered = 0 then done
    else
      let n := min (uptake total offered) offered
      if _ : n = 0 then done else go (total + n) (offered - n) (done + n)
  termination_by offered
  decreasing_by omega

/-- Writes all of `data`. A failure leaves in the sink what it took before. -/
def writeAll (s : Sink) (data : Bytes) : Except IoError Unit × Sink :=
  if data = [] then (.ok (), s)
  else if s.refusesShut && s.isShut then (.error .brokenPipe, s)
  else
    let n := progress s.uptake s.taken.length data.length
    let s' := { s with taken := s.taken ++ data.take n }
    if n = data.length then (.ok (), s')
    else (.error (if s.stalls then .writeZero else .brokenPipe), s')

def flush (s : Sink) : Except IoError Unit :=
  match s.flushFailure s.taken.length with
  | some e => .error e
  | none => .ok ()

/-- Writes a frame: the header, then the payload, and flushes them. -/
def writeFrame (s : Sink) (kind : MessageType) (payload : Bytes) : Except IoError Unit × Sink :=
  match s.writeAll (FrameHeader.new kind (UInt64.ofNat payload.length)).encode with
  | (.error e, s) => (.error e, s)
  | (.ok (), s) =>
    match s.writeAll payload with
    | (.error e, s) => (.error e, s)
    | (.ok (), s) => (s.flush, s)

/-- Encodes a message and writes it as one frame. -/
def sendMessage (s : Sink) (message : Message) : Except FrameError Unit × Sink :=
  match message.encode with
  | .error e => (.error (.protocol e), s)
  | .ok payload =>
    match s.writeFrame message.type payload with
    | (.ok (), s) => (.ok (), s)
    | (.error e, s) => (.error (.transport e), s)

@[simp] theorem taken_shutdown (s : Sink) : s.shutdown.taken = s.taken := rfl

@[simp] theorem isShut_shutdown (s : Sink) : s.shutdown.isShut = true := by
  simp [isShut, shutdown]

@[simp] theorem writeAll_nil (s : Sink) : s.writeAll [] = (.ok (), s) := rfl

/-- What a sink has taken stays; a write only adds a beginning of its data. -/
theorem taken_writeAll (s : Sink) (data : Bytes) :
    ∃ n, (s.writeAll data).2.taken = s.taken ++ data.take n := by
  simp only [writeAll]
  split
  · exact ⟨0, by simp⟩
  · split
    · exact ⟨0, by simp⟩
    · split <;> exact ⟨_, rfl⟩

end Sink

end FileMesh
