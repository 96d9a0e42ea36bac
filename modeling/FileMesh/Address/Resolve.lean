import FileMesh.Address.Text
import FileMesh.IoError
import FileMesh.Text.Blank
import FileMesh.Text.Number

/-!
# Looking up addresses

A target is a host and a port with a colon between them. Hosts are looked up by their numeric forms
and the name of the host itself; there is no directory of names. IPv4 hosts may leave out inner
octets and write parts in octal or hexadecimal, as is usual for hosts.
-/

namespace FileMesh.Address

/-- Why a target has no address: it cannot be looked up, or its address is an IPv6 address. -/
inductive ResolveError where
  | failed (target : String) (cause : IoError)
  | noIpv4 (target : String)
deriving DecidableEq, Repr

def ResolveError.message : ResolveError → String
  | failed target cause => "failed to resolve " ++ target ++ ": " ++ cause.message
  | noIpv4 target => target ++ " has no IPv4 address"

/-! ## Hosts -/

/-- A part of an IPv4 host: hexadecimal after `0x`, octal after another zero, or decimal. -/
def hostPart? (cs : List Char) : Option Nat :=
  let (base, digits) := match cs with
    | '0' :: 'x' :: rest => (16, rest)
    | '0' :: 'X' :: rest => (16, rest)
    | '0' :: c :: rest => (8, c :: rest)
    | _ => (10, cs)
  match Text.Reader.number base 0xFFFFFFFF digits with
  | some (n, []) => some n
  | _ => none

/-- The value of the parts of an IPv4 host: one octet each, but the last one fills what is left. -/
def hostValue? : (room : Nat) → List Nat → Option Nat
  | 0, _ => none
  | _, [] => none
  | room, [last] => if last < 256 ^ room then some last else none
  | room + 1, part :: rest =>
    if part < 256 then (hostValue? room rest).map (part * 256 ^ room + ·) else none

/-- The IPv4 address that a host names numerically. -/
def hostIpv4? (host : List Char) : Option Ipv4 := do
  let parts ← (Text.splitOn '.' host).mapM hostPart?
  let value ← hostValue? 4 parts
  some ⟨UInt8.ofNat (value >>> 24), UInt8.ofNat (value >>> 16), UInt8.ofNat (value >>> 8),
    UInt8.ofNat value⟩

/-- The address of a host. -/
def host? (host : List Char) : Option IpAddress :=
  if host = "localhost".toList then some (.v4 .loopback)
  else match hostIpv4? host with
    | some ip => some (.v4 ip)
    | none => (Ipv6.parse? (String.ofList host)).map (.v6 · 0)

/-! ## Targets -/

/-- What stands before and after the last colon. -/
def splitPort? (cs : List Char) : Option (List Char × List Char) :=
  let back := cs.reverse
  let port := back.takeWhile (· != ':')
  match back.drop port.length with
  | [] => none
  | _ :: host => some (host.reverse, port.reverse)

/-- The address of a host and a port. -/
def ofHostAndPort (cs : List Char) : Except IoError SocketAddress :=
  match splitPort? cs with
  | none => .error .badSocketAddress
  | some (host, port) =>
    match Text.unsigned? 0xFFFF port with
    | none => .error .badPort
    | some port =>
      if host.contains '\x00' then .error .nulInName
      else match host? host with
        | some ip => .ok ⟨ip, UInt16.ofNat port⟩
        | none => .error .unknownHost

def lookup (target : String) : Except IoError SocketAddress :=
  match SocketAddress.parse? target with
  | some address => .ok address
  | none => ofHostAndPort target.toList

/-- The IPv4 address of a target. -/
def resolve (target : String) : Except ResolveError Endpoint :=
  match lookup target with
  | .error cause => .error (.failed target cause)
  | .ok ⟨.v4 ip, port⟩ => .ok ⟨ip, port⟩
  | .ok ⟨.v6 .., _⟩ => .error (.noIpv4 target)

end FileMesh.Address
