import FileMesh.Address
import FileMesh.Text.Reader

/-!
# The text of addresses

IPv4 addresses are four decimal octets without leading zeros. IPv6 addresses are written in the
shortest form of RFC 5952: the longest run of at least two zero groups, the first one of several, is
shortened to `::`, and a mapped address ends in its IPv4 form. In a socket address IPv6 stands in
square brackets, with a scope after `%` when it has one.

Reading accepts every standard spelling: upper-case digits, leading zeros in groups and ports, and
an IPv4 tail in place of the last two groups.
-/

namespace FileMesh

def Ipv4.render (ip : Ipv4) : String :=
  toString ip.a.toNat ++ "." ++ toString ip.b.toNat ++ "." ++ toString ip.c.toNat ++ "." ++
    toString ip.d.toNat

def Endpoint.render (e : Endpoint) : String := e.ip.render ++ ":" ++ toString e.port.toNat

namespace Ipv6

/-- A group in hexadecimal without leading zeros. -/
def renderGroup (g : UInt16) : String := String.ofList (Nat.toDigits 16 g.toNat)

def renderGroups (gs : List UInt16) : String := ":".intercalate (gs.map renderGroup)

/-- The number of zero groups at the beginning. -/
def zeroRun (gs : List UInt16) : Nat := (gs.takeWhile (· == 0)).length

/-- Where the longest run of zero groups starts and how long it is; the first one of several. -/
def longestZeroRun (gs : List UInt16) : Nat × Nat :=
  (List.range gs.length).foldl (fun best i =>
    let n := zeroRun (gs.drop i)
    if best.2 < n then (i, n) else best) (0, 0)

/-- The address in its shortest form. -/
def render (ip : Ipv6) : String :=
  match ip.mapped? with
  | some v4 => "::ffff:" ++ v4.render
  | none =>
    let gs := ip.groups.toList
    let (start, n) := longestZeroRun gs
    if 1 < n then renderGroups (gs.take start) ++ "::" ++ renderGroups (gs.drop (start + n))
    else renderGroups gs

end Ipv6

def IpAddress.render : IpAddress → String
  | .v4 ip => ip.render
  | .v6 ip _ => ip.render

def SocketAddress.render (s : SocketAddress) : String :=
  let port := ":" ++ toString s.port.toNat
  match s.ip with
  | .v4 ip => ip.render ++ port
  | .v6 ip scope =>
    let scope := if scope = 0 then "" else "%" ++ toString scope.toNat
    "[" ++ ip.render ++ scope ++ "]" ++ port

namespace Address

open Text (Reader)
open Text.Reader (char number shortNumber whole)

/-- An octet: one to three digits, and no leading zero before another digit. -/
def octet : Reader UInt8 := fun cs =>
  match cs with
  | '0' :: c :: _ => if Text.isDigit 10 c then none else value cs
  | _ => value cs
where
  value (cs : List Char) : Option (UInt8 × List Char) :=
    (shortNumber 10 3 255 cs).map fun (n, rest) => (UInt8.ofNat n, rest)

/-- Four octets with points between them. -/
def ipv4 : Reader Ipv4 := fun cs => do
  let (a, cs) ← octet cs
  let (_, cs) ← char '.' cs
  let (b, cs) ← octet cs
  let (_, cs) ← char '.' cs
  let (c, cs) ← octet cs
  let (_, cs) ← char '.' cs
  let (d, cs) ← octet cs
  pure (⟨a, b, c, d⟩, cs)

/-- One group of up to four hexadecimal digits. -/
def group : Reader UInt16 := fun cs =>
  (shortNumber 16 4 0xFFFF cs).map fun (n, rest) => (UInt16.ofNat n, rest)

/-- The two groups that an IPv4 address fills. -/
def groupsOf (ip : Ipv4) : List UInt16 :=
  [UInt16.ofNat (256 * ip.a.toNat + ip.b.toNat), UInt16.ofNat (256 * ip.c.toNat + ip.d.toNat)]

/-- As many groups as there are, at most `room`, with colons between them and `sep` before the first
one; an IPv4 address may stand for the last two and ends the run. The flag says that one did. -/
def groups (sep : Reader Unit) : Nat → List Char → List UInt16 × Bool × List Char
  | 0, cs => ([], false, cs)
  | room + 1, cs =>
    match (if 0 < room then sep cs >>= fun (_, cs) => ipv4 cs else none) with
    | some (ip, rest) => (groupsOf ip, true, rest)
    | none =>
      match sep cs >>= fun (_, cs) => group cs with
      | none => ([], false, cs)
      | some (g, rest) =>
        let (gs, tail, rest) := groups (char ':') room rest
        (g :: gs, tail, rest)

/-- The address with these groups; missing ones are zero. -/
def ofGroups (gs : List UInt16) : Ipv6 := ⟨Vector.ofFn fun i => gs.getD i.val 0⟩

/-- Eight groups, or fewer with `::` in place of at least one zero group. -/
def ipv6 : Reader Ipv6 := fun cs => do
  let start : Reader Unit := fun cs => some ((), cs)
  let (head, tail, cs) := groups start 8 cs
  if head.length = 8 then pure (ofGroups head, cs)
  else if tail then none
  else
    let (_, cs) ← char ':' cs
    let (_, cs) ← char ':' cs
    let (back, _, cs) := groups start (8 - (head.length + 1)) cs
    pure (ofGroups (head ++ List.replicate (8 - head.length - back.length) 0 ++ back), cs)

/-- A colon and a port. -/
def port : Reader UInt16 := fun cs => do
  let (_, cs) ← char ':' cs
  let (n, cs) ← number 10 0xFFFF cs
  pure (UInt16.ofNat n, cs)

/-- A scope after a percent sign; none reads as zero. -/
def scope : Reader UInt32 := fun cs =>
  match char '%' cs >>= fun (_, cs) => number 10 0xFFFFFFFF cs with
  | some (n, rest) => some (UInt32.ofNat n, rest)
  | none => some (0, cs)

/-- An address of either kind with a port. -/
def socketAddress : Reader SocketAddress := fun cs =>
  let v4 : Option (SocketAddress × List Char) := do
    let (ip, cs) ← ipv4 cs
    let (p, cs) ← port cs
    pure (⟨.v4 ip, p⟩, cs)
  v4.or do
    let (_, cs) ← char '[' cs
    let (ip, cs) ← ipv6 cs
    let (s, cs) ← scope cs
    let (_, cs) ← char ']' cs
    let (p, cs) ← port cs
    pure (⟨.v6 ip s, p⟩, cs)

end Address

def Ipv4.parse? (s : String) : Option Ipv4 := Text.Reader.whole Address.ipv4 s

/-- Reads an IPv6 address without brackets. -/
def Ipv6.parse? (s : String) : Option Ipv6 := Text.Reader.whole Address.ipv6 s

def SocketAddress.parse? (s : String) : Option SocketAddress :=
  Text.Reader.whole Address.socketAddress s

def Endpoint.parse? (s : String) : Option Endpoint := do
  let address ← SocketAddress.parse? s
  match address.ip with
  | .v4 ip => some ⟨ip, address.port⟩
  | .v6 _ _ => none

end FileMesh
