import FileMesh.Address.Resolve
import FileMesh.Frame.Sink

/-!
# Networks

What a node can do with the network around it: listen at an address and dial one. Of a connection
that was dialed there are the address of its near end and the sink to write to.
-/

namespace FileMesh

/-- The near end of a connection that was dialed: its address and the writing half. -/
structure Dialed where
  localAddress : SocketAddress
  sink : Sink

/-- A network, by its answers. Whoever starts to listen gets the address, with the port that was
picked for port zero. -/
structure Network where
  listen : SocketAddress → Except IoError SocketAddress
  dial : SocketAddress → Except IoError Dialed

/-- Why there is no listener or no connection. -/
inductive NetworkError where
  | bindFailed (address : SocketAddress) (cause : IoError)
  | connectFailed (address : SocketAddress) (cause : IoError)
  | unresolved (cause : Address.ResolveError)
deriving DecidableEq, Repr

def NetworkError.message : NetworkError → String
  | bindFailed address cause => "failed to bind " ++ address.render ++ ": " ++ cause.message
  | connectFailed address cause =>
    "failed to connect to " ++ address.render ++ ": " ++ cause.message
  | unresolved cause => cause.message

namespace Network

/-- The first of the ports that are picked when none is asked for. -/
def firstFreePort : UInt16 := 49152

/-- A host without any route: it may listen at every IPv4 address, at mapped ones and at all of
IPv6, but nothing can be reached. -/
def isolated : Network where
  listen address :=
    let bound := if address.port = 0 then { address with port := firstFreePort } else address
    match address.ip with
    | .v4 _ => .ok bound
    | .v6 ip _ =>
      if ip = .unspecified ∨ ip.mapped?.isSome then .ok bound else .error .addressNotAvailable
  dial _ := .error .networkUnreachable

def openListener (network : Network) (address : SocketAddress) :
    Except NetworkError SocketAddress :=
  (network.listen address).mapError (.bindFailed address)

def connect (network : Network) (address : SocketAddress) : Except NetworkError Dialed :=
  (network.dial address).mapError (.connectFailed address)

end Network

end FileMesh
