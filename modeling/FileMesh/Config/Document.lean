import FileMesh.Address.Text
import FileMesh.Config
import FileMesh.Toml.Document

/-!
# Settings in a file

A settings file is a TOML document of four sections. A section is a table; an array gives the values
of a section in order. What a file does not mention has its standard value, what no section knows is
ignored, and a value of the wrong type or out of range makes the whole file unusable.
-/

namespace FileMesh.Config

namespace Document

/-- A value where one is given: `some none` if none is given, `none` if it is of the wrong type. -/
def optional {α : Type} (read : Toml.Value → Option α) : Option Toml.Value → Option (Option α)
  | none => some none
  | some v => (read v).map some

/-- A given value, or `fallback` if none is given. -/
def orElse {α : Type} (read : Toml.Value → Option α) (fallback : α) (v : Option Toml.Value) :
    Option α :=
  (optional read v).map (·.getD fallback)

/-! ## Values -/

def text : Toml.Value → Option String
  | .string s => some s
  | _ => none

def texts : Toml.Value → Option (List String)
  | .array items => items.mapM text
  | _ => none

/-- Reads an integer from zero to `largest`. -/
def integer (largest : Nat) : Toml.Value → Option Nat
  | .integer n => if 0 ≤ n ∧ n.toNat ≤ largest then some n.toNat else none
  | _ => none

def word (v : Toml.Value) : Option UInt64 := (integer 0xFFFFFFFFFFFFFFFF v).map UInt64.ofNat

def byte (v : Toml.Value) : Option UInt8 := (integer 255 v).map UInt8.ofNat

def socketAddress (v : Toml.Value) : Option SocketAddress := text v >>= SocketAddress.parse?

def ipv4 (v : Toml.Value) : Option Ipv4 := text v >>= Ipv4.parse?

/-! ## Sections -/

/-- The values that a section gives to these fields. A date counts as a section without values. -/
def fields (names : List String) : Toml.Value → Option Toml.Entries
  | .table _ entries => some entries
  | .array items => some (names.zip items)
  | .tables ts => some (names.zip (ts.map (Toml.Value.table .header)))
  | .datetime _ => some []
  | _ => none

def network (c : Config) (v : Toml.Value) : Option Config := do
  let entries ← fields ["listen_addr", "advertise_ip", "peers"] v
  let listenAddress ← orElse socketAddress c.listenAddress (entries.lookup "listen_addr")
  let advertiseIp ← optional ipv4 (entries.lookup "advertise_ip")
  let peers ← orElse texts c.peers (entries.lookup "peers")
  some { c with listenAddress, advertiseIp := advertiseIp.or c.advertiseIp, peers }

def storage (c : Config) (v : Toml.Value) : Option Config := do
  let entries ← fields ["download_dir", "share"] v
  let downloadDir ← orElse text c.downloadDir (entries.lookup "download_dir")
  let share ← orElse texts c.share (entries.lookup "share")
  some { c with downloadDir, share }

def download (c : Config) (v : Toml.Value) : Option Config := do
  let entries ← fields ["poll_interval_ms", "request_ttl"] v
  let pollIntervalMs ← orElse word c.pollIntervalMs (entries.lookup "poll_interval_ms")
  let requestTtl ← orElse byte c.requestTtl (entries.lookup "request_ttl")
  some { c with pollIntervalMs, requestTtl }

def limits (c : Config) (v : Toml.Value) : Option Config := do
  let entries ← fields ["max_frame_bytes"] v
  let maxFrameBytes ← orElse word c.maxFrameBytes (entries.lookup "max_frame_bytes")
  some { c with maxFrameBytes }

/-- Reads a section, if it is there. -/
def applyTo (read : Config → Toml.Value → Option Config) (c : Config) :
    Option Toml.Value → Option Config
  | none => some c
  | some v => read c v

end Document

/-! ## Files -/

open Document

/-- The settings that a table of sections gives. -/
def ofEntries? (entries : Toml.Entries) : Option Config := do
  let c ← applyTo network standard (entries.lookup "network")
  let c ← applyTo storage c (entries.lookup "storage")
  let c ← applyTo download c (entries.lookup "download")
  applyTo limits c (entries.lookup "limits")

/-- The settings that a file gives. -/
def parse? (document : String) : Option Config := Toml.parse? document >>= ofEntries?

/-- The file with the standard settings. -/
def standardDocument : String :=
  "[network]\nlisten_addr = \"0.0.0.0:0\"\npeers = []\n\n" ++
  "[storage]\ndownload_dir = \".\"\nshare = []\n\n" ++
  "[download]\npoll_interval_ms = 1000\nrequest_ttl = 5\n\n" ++
  "[limits]\nmax_frame_bytes = 67108864\n"

/-- The standard file says what holds without a file. -/
theorem parse?_standardDocument : parse? standardDocument = some standard := by decide +kernel

end FileMesh.Config
