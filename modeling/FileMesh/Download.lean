import FileMesh.Entry
import FileMesh.Message
import FileMesh.Network
import FileMesh.VerifiedChunks

/-!
# Downloads

The stages of a download. It begins by opening a return endpoint; from then on it can be told to
stop. Then rounds follow: it looks which chunks are missing and asks for each of them, and waits. It
ends when no chunk is missing and the file is saved or cannot be saved, or when it is told to stop
while it waits, or at once if there is no return endpoint.
-/

namespace FileMesh

/-- How a download ended: every chunk is there and saved, it was told to stop, there was no return
endpoint, or every chunk is there and the file could not be saved. -/
inductive DownloadOutcome where
  | complete
  | interrupted
  | failed (cause : NetworkError)
  | unsaved (name : String) (cause : StoreError)
deriving DecidableEq, Repr

/-- What is said of a download that failed. -/
def DownloadOutcome.failureMessage? : DownloadOutcome → Option String
  | failed cause => some ("failed to open return endpoint: " ++ cause.message)
  | unsaved name cause => some ("failed to save " ++ name ++ ": " ++ cause.message)
  | complete => none
  | interrupted => none

/-- Where a download stands: it has not begun, it is about to look what is missing, it has asked for
that and waits, or it has ended. The flag says that it was told to stop. -/
inductive DownloadStage where
  | spawned
  | verifying (returnEndpoint : Endpoint) (stopping : Bool)
  | waiting (returnEndpoint : Endpoint) (stopping : Bool)
  | finished (outcome : DownloadOutcome)
deriving DecidableEq, Repr

namespace DownloadStage

def isRunning : DownloadStage → Bool
  | finished _ => false
  | _ => true

/-- The stage after a stop signal. A download that has not begun does not hear it. -/
def signal : DownloadStage → DownloadStage
  | verifying e _ => verifying e true
  | waiting e _ => waiting e true
  | stage => stage

end DownloadStage

/-- A download of one file. -/
structure Download where
  hash : ContentHash
  stage : DownloadStage
deriving DecidableEq, Repr

namespace Download

/-- The requests for the missing chunks, in ascending order. -/
def requests (hash : ContentHash) (returnEndpoint : Endpoint) (ttl : UInt8) (v : VerifiedChunks) :
    List ChunkRequest :=
  v.unverified.map fun index => ⟨hash, UInt32.ofNat index, returnEndpoint, ttl⟩

/-- The payload length of the delivery of the largest chunk. -/
def deliveryLength (d : Descriptor) : UInt64 :=
  (ChunkRange.ofIndex d.size 7).length + UInt64.ofNat ChunkData.fixedWidth

end Download

end FileMesh
