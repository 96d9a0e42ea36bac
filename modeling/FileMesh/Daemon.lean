import FileMesh.Config.Load
import FileMesh.Node.Shutdown
import FileMesh.Operator

/-!
# The daemon

A daemon runs one node: it loads the settings, makes the download directory, starts to listen,
shares the files and connects to the peers that the settings name, and then follows the operator's
lines. Without a download directory or a listener there is nothing to run; everything else that
fails at the start is passed over.
-/

namespace FileMesh.Daemon

inductive StartError where
  | noDownloadDir (path : String) (cause : IoError)
  | noListener (cause : NetworkError)
deriving DecidableEq, Repr

def StartError.message : StartError → String
  | noDownloadDir path cause =>
    "failed to create download dir " ++ path ++ ": " ++ cause.message
  | noListener cause => cause.message

/-! ## Starting -/

/-- The settings to run with: those that load, or the standard ones. -/
def settings (env : Environment) (disk : Disk) : Config :=
  match Config.load env disk with
  | .ok c => c
  | .error _ => .standard

/-- Shares files one by one; those that cannot be shared are passed over. -/
def shareAll (disk : Disk) (n : Node) (paths : List String) : Node :=
  paths.foldl (fun n path =>
    match n.share disk path with
    | .ok (_, n) => n
    | .error _ => n) n

/-- Connects to targets one by one; those that cannot be reached are passed over. -/
def connectAll (network : Network) (n : Node) (targets : List String) : Node :=
  targets.foldl (fun n target => (n.connectTo network target).2) n

/-- Starts a node with these settings. The argument, if there is one, is one more peer. -/
def launch (network : Network) (config : Config) (argument : Option String) (disk : Disk) :
    Except StartError Node :=
  match (Node.new config).bind network with
  | .error cause => .error (.noListener cause)
  | .ok (address, n) =>
    let n := n.notify (.system ("Running on port " ++ toString address.port.toNat))
    let n := shareAll disk n config.share
    .ok (connectAll network n (config.peers ++ argument.toList))

/-- Loads the settings and starts a node. A missing settings file is written first. -/
def start (network : Network) (env : Environment) (argument : Option String) (disk : Disk) :
    Except StartError Node × Disk :=
  let (_, disk) := Config.writeIfMissing env disk
  let config := settings env disk
  match disk.makeDirectories config.downloadDir with
  | (.error cause, disk) => (.error (.noDownloadDir config.downloadDir cause), disk)
  | (.ok (), disk) => (launch network config argument disk, disk)

/-! ## Following the operator -/

/-- The text of a line; `none` if it is not UTF-8, which ends the input. -/
def lineText? (line : Bytes) : Option String := (Utf8.decode line).toOption

/-- Does what a line asks for; `none` if the node is to stop. -/
def follow (network : Network) (disk : Disk) (n : Node) (line : Bytes) : Option (Node × Disk) := do
  let n ← (Command.parse (← lineText? line)).run disk n
  some (n.settle network disk)

/-- Follows lines until one of them stops the node or there are none left. -/
def followAll (network : Network) (disk : Disk) (n : Node) : List Bytes → Node × Disk
  | [] => (n, disk)
  | line :: rest =>
    match follow network disk n line with
    | none => (n, disk)
    | some (n, disk) => followAll network disk n rest

def lines (input : Bytes) : List Bytes := Text.splitOn 10 input

/-! ## Runs -/

/-- What came of a run: what the operator was told, why the daemon did not start, if it did not, and
the disk afterwards. -/
structure Outcome where
  notices : List Notice
  failure : Option StartError
  disk : Disk

/-- The exit status: zero if the daemon was running. -/
def Outcome.exitCode (o : Outcome) : Nat := if o.failure.isSome then 1 else 0

/-- What the operator was told, as it is shown: one notice after the other, each with a line end. -/
def Outcome.output (o : Outcome) : String := String.join (o.notices.map fun n => n.line ++ "\n")

/-- Runs a daemon on an input. -/
def run (network : Network) (env : Environment) (argument : Option String) (input : Bytes)
    (disk : Disk) : Outcome :=
  match start network env argument disk with
  | (.error cause, disk) => ⟨[], some cause, disk⟩
  | (.ok n, disk) =>
    let (n, disk) := n.settle network disk
    let (n, disk) := followAll network disk n (lines input)
    let (n, disk) := n.shutdown disk
    ⟨n.notices, none, disk⟩

end FileMesh.Daemon
