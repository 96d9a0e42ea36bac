import FileMesh.Daemon

/-!
# The command line

Runs the daemon on this host: the settings and the files to share are read from its files, the
operator's lines from standard input, and notices go to standard output as they come. The host is on
its own: it listens to nobody and reaches nobody. The only argument is one more peer to connect to.
-/

namespace FileMesh.Main

/-- The variables that the daemon looks at. -/
def settingVariables : List String :=
  ["TRELLIS_CONFIG", "XDG_CONFIG_HOME", "HOME", "TRELLIS_NETWORK__LISTEN_ADDR",
    "TRELLIS_NETWORK__ADVERTISE_IP", "TRELLIS_NETWORK__PEERS", "TRELLIS_STORAGE__DOWNLOAD_DIR",
    "TRELLIS_DOWNLOAD__POLL_INTERVAL_MS"]

/-- Those of the variables that are set. -/
def environment : IO Environment :=
  settingVariables.filterMapM fun name => do return (← IO.getEnv name).map (name, ·)

/-- Puts the host's file at a path onto the disk, if it can be read. -/
def copyIn (disk : Disk) (path : String) : IO Disk := do
  try
    return (disk.install path (← IO.FS.readBinFile path).data.toList).2
  catch _ => return disk

/-- Puts the disk's file at a path onto the host, with the directories it needs. -/
def copyOut (disk : Disk) (path : String) : IO Unit := do
  match disk.read path with
  | .error _ => return
  | .ok bytes =>
    if let some parent := (Path.parent? path).filter (· ≠ "") then IO.FS.createDirAll parent
    IO.FS.writeBinFile path ⟨bytes.toArray⟩

/-- Shows the notices that came after the first `shown` ones. -/
def showFrom (shown : Nat) (n : Node) : IO Unit := do
  let out ← IO.getStdout
  for notice in n.notices.drop shown do
    out.putStrLn notice.line
  out.flush

/-- The next line of an input without its end; `none` when the input has ended. -/
partial def nextLine? (input : IO.FS.Stream) : IO (Option Bytes) := go []
where
  go (line : Bytes) : IO (Option Bytes) := do
    match (← input.read 1).data.toList with
    | [] => return if line.isEmpty then none else some line.reverse
    | b :: _ => if b = 10 then return some line.reverse else go (b :: line)

/-- Follows the operator until the input ends or a line stops the node. -/
partial def operate (disk : Disk) (input : IO.FS.Stream) (n : Node) : IO Unit := do
  match ← nextLine? input with
  | none => return
  | some line =>
    match Daemon.follow .isolated disk n line with
    | none => return
    | some (next, disk) =>
      showFrom n.notices.length next
      operate disk input next

def run (argument : Option String) : IO UInt32 := do
  let env ← environment
  let disk ← copyIn .empty env.configPath
  let missing := !disk.exists? env.configPath
  let disk ← (Daemon.settings env disk).share.foldlM copyIn disk
  match Daemon.start .isolated env argument disk with
  | (.error cause, _) =>
    (← IO.getStderr).putStrLn ("Error: " ++ cause.message)
    return 1
  | (.ok n, disk) =>
    if missing then
      try copyOut disk env.configPath catch _ => pure ()
    IO.FS.createDirAll n.config.downloadDir
    showFrom 0 n
    operate disk (← IO.getStdin) n
    return 0

end FileMesh.Main

/-- The command line: at most one argument counts, a peer to connect to. -/
def main (args : List String) : IO UInt32 := FileMesh.Main.run args.head?
