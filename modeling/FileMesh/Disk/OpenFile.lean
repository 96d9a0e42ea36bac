import FileMesh.ContentHash.Range
import FileMesh.Disk

/-!
# Reading what is open

What a path leads to, once it is open, can be measured and hashed by ranges. A directory can be
opened too, but no byte can be read from it.
-/

namespace FileMesh.Disk

/-- The size a directory says it has. -/
def directorySize : Nat := 4096

/-- What is at a path, open for reading. -/
def openToRead (d : Disk) (path : String) : Except IoError NodeKind := (d.resolve path).map Prod.snd

def sizeOf (d : Disk) : NodeKind → Nat
  | .directory => directorySize
  | .file id => (d.file id).length

def hashRange (d : Disk) (kind : NodeKind) (offset length : Nat) : Except IoError ContentHash :=
  match kind with
  | .directory => if length = 0 then .ok (.ofContent []) else .error .isDirectory
  | .file id =>
    if largestOffset < offset then .error .badOffset
    else (ContentHash.ofRange (d.content id) offset length).map Prod.fst

end FileMesh.Disk
