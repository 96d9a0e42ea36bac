import FileMesh.Address

/-!
# Settings

What a node can be told before it starts. Every setting has a standard value.
-/

namespace FileMesh

/-- The settings of a node. Port zero in `listenAddress` leaves the choice of the port open. A
download waits `pollIntervalMs` between two rounds of requests, and of a payload at most
`maxFrameBytes` are kept. -/
structure Config where
  listenAddress : SocketAddress
  advertiseIp : Option Ipv4
  peers : List String
  downloadDir : String
  share : List String
  pollIntervalMs : UInt64
  requestTtl : UInt8
  maxFrameBytes : UInt64
deriving DecidableEq, Repr, Inhabited

namespace Config

def standard : Config where
  listenAddress := ⟨.v4 .unspecified, 0⟩
  advertiseIp := none
  peers := []
  downloadDir := "."
  share := []
  pollIntervalMs := 1000
  requestTtl := 5
  maxFrameBytes := 67108864

end Config

end FileMesh
