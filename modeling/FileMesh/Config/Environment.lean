import FileMesh.Address.Text
import FileMesh.Config
import FileMesh.Path
import FileMesh.Text.Number

/-!
# Settings in the environment

Some settings can be given by variables, which count more than the settings file; a variable that
cannot be read counts as absent. Variables also say where the settings file is.
-/

namespace FileMesh

/-- The variables that are set. -/
abbrev Environment := List (String × String)

namespace Environment

def home (env : Environment) : String := (env.lookup "HOME").getD "/tmp"

/-- The directory in which programs keep their settings. -/
def configHome (env : Environment) : String :=
  (env.lookup "XDG_CONFIG_HOME").getD (Path.join env.home ".config")

def configPath (env : Environment) : String :=
  (env.lookup "TRELLIS_CONFIG").getD
    (Path.join (Path.join env.configHome "trellis") "config.toml")

/-- The value of a variable that is set and can be read. -/
def value? {α : Type} (env : Environment) (name : String) (read : String → Option α) : Option α :=
  env.lookup name >>= read

end Environment

namespace Config

/-- Peers with commas between them. Blanks around a peer do not count, nor do empty ones. -/
def peerList (s : String) : List String :=
  ((Text.splitOn ',' s.toList).map Text.trimChars |>.filter fun p => !p.isEmpty).map String.ofList

/-- A number of milliseconds. -/
def milliseconds? (s : String) : Option UInt64 :=
  (Text.unsigned? 0xFFFFFFFFFFFFFFFF s.toList).map UInt64.ofNat

/-- The settings with those that variables give in place of the others. -/
def override (c : Config) (env : Environment) : Config :=
  { c with
    listenAddress :=
      (env.value? "TRELLIS_NETWORK__LISTEN_ADDR" SocketAddress.parse?).getD c.listenAddress
    advertiseIp := (env.value? "TRELLIS_NETWORK__ADVERTISE_IP" Ipv4.parse?).or c.advertiseIp
    peers := (env.value? "TRELLIS_NETWORK__PEERS" (some ∘ peerList)).getD c.peers
    downloadDir := (env.value? "TRELLIS_STORAGE__DOWNLOAD_DIR" some).getD c.downloadDir
    pollIntervalMs :=
      (env.value? "TRELLIS_DOWNLOAD__POLL_INTERVAL_MS" milliseconds?).getD c.pollIntervalMs }

end Config

end FileMesh
