import FileMesh.Bytes

/-!
# Network addresses

IPv4 and IPv6 addresses and the socket addresses made of them. Peers describe themselves and their
return endpoints by IPv4 only; an IPv6 address counts as IPv4 when it is a mapped one.
-/

namespace FileMesh

/-- An IPv4 address: four octets. -/
structure Ipv4 where
  a : UInt8
  b : UInt8
  c : UInt8
  d : UInt8
deriving DecidableEq, Repr, Inhabited

namespace Ipv4

/-- The address that names no particular interface. -/
def unspecified : Ipv4 := ⟨0, 0, 0, 0⟩

/-- The address of the host itself. -/
def loopback : Ipv4 := ⟨127, 0, 0, 1⟩

/-- Whether the address names no particular interface. -/
def isUnspecified (ip : Ipv4) : Bool := ip == unspecified

/-- Whether the address is in the block that stays inside a host. -/
def isLoopback (ip : Ipv4) : Bool := ip.a == 127

def octets (ip : Ipv4) : Bytes := [ip.a, ip.b, ip.c, ip.d]

end Ipv4

/-- An IPv6 address: eight groups of sixteen bits. -/
structure Ipv6 where
  groups : Vector UInt16 8
deriving DecidableEq, Repr, Inhabited

namespace Ipv6

/-- The address that names no particular interface. -/
def unspecified : Ipv6 := ⟨Vector.replicate 8 0⟩

/-- The IPv4 address that a mapped address stands for. -/
def mapped? (ip : Ipv6) : Option Ipv4 :=
  match ip.groups.toList with
  | [0, 0, 0, 0, 0, 0xFFFF, high, low] =>
    some ⟨(high >>> 8).toUInt8, high.toUInt8, (low >>> 8).toUInt8, low.toUInt8⟩
  | _ => none

end Ipv6

structure Endpoint where
  ip : Ipv4
  port : UInt16
deriving DecidableEq, Repr, Inhabited

/-- An IP address of either kind. An IPv6 address has a scope, zero for none. -/
inductive IpAddress where
  | v4 (ip : Ipv4)
  | v6 (ip : Ipv6) (scope : UInt32)
deriving DecidableEq, Repr, Inhabited

structure SocketAddress where
  ip : IpAddress
  port : UInt16
deriving DecidableEq, Repr, Inhabited

def Endpoint.toSocketAddress (e : Endpoint) : SocketAddress := ⟨.v4 e.ip, e.port⟩

namespace SocketAddress

/-- The IPv4 form of an address; a mapped IPv6 address has one. -/
def toEndpoint? (s : SocketAddress) : Option Endpoint :=
  match s.ip with
  | .v4 ip => some ⟨ip, s.port⟩
  | .v6 ip _ => ip.mapped?.map (⟨·, s.port⟩)

/-- The same IP address with another port, and no scope. -/
def withPort (s : SocketAddress) (port : UInt16) : SocketAddress :=
  match s.ip with
  | .v4 ip => ⟨.v4 ip, port⟩
  | .v6 ip _ => ⟨.v6 ip 0, port⟩

/-- The IPv4 address a remote node could dial: none for IPv6, nor for the unspecified address. -/
def reachableIp? (s : SocketAddress) : Option Ipv4 :=
  (s.toEndpoint?.map Endpoint.ip).filter (!·.isUnspecified)

end SocketAddress

end FileMesh
