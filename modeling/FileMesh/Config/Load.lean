import FileMesh.Config.Document
import FileMesh.Config.Environment
import FileMesh.Disk

/-!
# Loading settings

Settings come from the settings file, if there is one, and then from the variables. Without a file
the standard settings take its place; a file that is there has to be readable. A missing file can
be written with the standard settings first.
-/

namespace FileMesh

/-- Why there are no settings, or why they are not written. -/
inductive ConfigError where
  | readFailed (path : String) (cause : IoError)
  | parseFailed (path : String)
  | writeFailed (path : String) (cause : IoError)
deriving DecidableEq, Repr

def ConfigError.message : ConfigError → String
  | readFailed path cause => "failed to read " ++ path ++ ": " ++ cause.message
  | parseFailed path => "failed to parse " ++ path
  | writeFailed path cause => "failed to write " ++ path ++ ": " ++ cause.message

namespace Config

def readFile (disk : Disk) (path : String) : Except ConfigError Config :=
  match disk.read path with
  | .error cause => .error (.readFailed path cause)
  | .ok bytes =>
    match Utf8.decode bytes with
    | .error _ => .error (.readFailed path .notUtf8)
    | .ok document =>
      match parse? document with
      | none => .error (.parseFailed path)
      | some c => .ok c

/-- The settings in the file at a path, or the standard ones if there is no file. -/
def ofFile (disk : Disk) (path : String) : Except ConfigError Config :=
  if disk.exists? path then readFile disk path else .ok standard

/-- The settings from the file and the variables. -/
def load (env : Environment) (disk : Disk) : Except ConfigError Config :=
  (ofFile disk env.configPath).map (·.override env)

/-- Writes the standard settings to a path, with the directories it needs. -/
def writeStandard (disk : Disk) (path : String) : Except ConfigError Unit × Disk :=
  let (result, disk) := disk.install path (Utf8.encode standardDocument)
  (result.mapError (.writeFailed path), disk)

/-- Makes sure that there is a settings file and gives its path. -/
def writeIfMissing (env : Environment) (disk : Disk) : Except ConfigError String × Disk :=
  let path := env.configPath
  if disk.exists? path then (.ok path, disk)
  else
    let (result, disk) := writeStandard disk path
    (result.map fun () => path, disk)

end Config

end FileMesh
