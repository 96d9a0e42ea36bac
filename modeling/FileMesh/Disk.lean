import FileMesh.Disk.FileContent
import FileMesh.IoError
import FileMesh.Path
import FileMesh.Text.Utf8

/-!
# A disk

A tree of directories and files and the contents of the files. Names lead to file numbers and the
contents are kept under the numbers, so a file that is open stays usable when its name is removed,
and everything that is open on one file sees the same bytes. Whoever uses the disk may read and
write all of it; access rights are left out. Which lengths a file can have, what can be mapped and
whether a mapping can be written out is up to the system and a parameter of the disk.
-/

namespace FileMesh

abbrev FileId := Nat

/-- What a name in a directory stands for. -/
inductive NodeKind where
  | directory
  | file (id : FileId)
deriving DecidableEq, Repr, Inhabited

/-- Where something is in the tree: the names on the way to it, the innermost first. -/
abbrev Place := List String

/-- What the system refuses: to give a file a length, to map that many bytes of it, and to write
such a mapping out. -/
structure FileSystem where
  lengthFailure : Nat → Option IoError
  mapFailure : Nat → Option IoError
  syncFailure : Nat → Option IoError
deriving Inhabited

/-- The largest number of bytes in a file if pages are counted in 32 bits. -/
def FileSystem.largestFile : Nat := 0xFFFFFFFF * FileContent.pageSize

/-- A system that counts pages in 32 bits and refuses nothing else. -/
def FileSystem.pageCounting : FileSystem where
  lengthFailure n := if largestFile < n then some .fileTooLarge else none
  mapFailure _ := none
  syncFailure _ := none

/-- A tree of directories and files, the contents of the files by number, the directory in which
relative paths start, and the system that keeps all of it. The root is a directory without being
listed. -/
structure Disk where
  entries : List (Place × NodeKind)
  contents : List FileContent
  here : Place
  system : FileSystem
deriving Inhabited

namespace Disk

/-- A disk with nothing on it but the directory in which relative paths start. -/
def empty : Disk := ⟨[(["work"], .directory)], [], ["work"], .pageCounting⟩

def kind? (d : Disk) (place : Place) : Option NodeKind :=
  if place = [] then some .directory else d.entries.lookup place

/-- The disk with `kind` at a place where nothing stood. -/
def link (d : Disk) (place : Place) (kind : NodeKind) : Disk :=
  { d with entries := (place, kind) :: d.entries }

/-- The disk without what stands at a place. -/
def unlink (d : Disk) (place : Place) : Disk :=
  { d with entries := d.entries.filter fun e => e.1 != place }

/-! ## Paths -/

def longestName : Nat := 255

/-- The number of bytes from which on a path is too long. -/
def pathLimit : Nat := 4096

/-- Refuses a text that is no path. -/
def checkPath (path : String) : Except IoError Unit :=
  if path.toList.contains '\x00' then .error .nulInName
  else if path = "" then .error .notFound
  else if pathLimit ≤ path.utf8ByteSize then .error .longName
  else .ok ()

/-- Where a path starts. -/
def start (d : Disk) (path : String) : Place := if Path.isAbsolute path then [] else d.here

/-- The place of `name` in the directory at `place`. A dot is the directory itself and two dots are
the one above. -/
def enter (d : Disk) (place : Place) (name : String) : Except IoError Place :=
  match d.kind? place with
  | none => .error .notFound
  | some (.file _) => .error .notDirectory
  | some .directory =>
    if name = "." then .ok place
    else if name = ".." then .ok place.tail
    else if longestName < name.utf8ByteSize then .error .longName
    else .ok (name :: place)

/-- Follows names from a place on. All but the last have to lead to something. -/
def follow (d : Disk) : Place → List String → Except IoError Place
  | place, [] => .ok place
  | place, name :: rest => do follow d (← d.enter place name) rest

/-- The place a path leads to, whether or not something stands there. -/
def target (d : Disk) (path : String) : Except IoError Place := do
  checkPath path
  d.follow (d.start path) (Path.pieces path)

/-- The place a path leads to and what stands there. -/
def resolve (d : Disk) (path : String) : Except IoError (Place × NodeKind) := do
  let place ← d.target path
  match d.kind? place with
  | none => .error .notFound
  | some (.file id) =>
    if Path.endsInSeparator path then .error .notDirectory else .ok (place, .file id)
  | some .directory => .ok (place, .directory)

def exists? (d : Disk) (path : String) : Bool :=
  match d.resolve path with
  | .ok _ => true
  | .error _ => false

def isDirectory (d : Disk) (path : String) : Bool :=
  match d.resolve path with
  | .ok (_, .directory) => true
  | _ => false

/-- Whether a path ends in a name, not in a dot, in two dots or in the root. -/
def endsInName (path : String) : Bool :=
  match (Path.pieces path).getLast? with
  | none => false
  | some piece => piece != "." && piece != ".."

/-! ## Changing the tree -/

def makeDirectory (d : Disk) (path : String) : Except IoError Disk := do
  let place ← d.target path
  if !endsInName path ∨ (d.kind? place).isSome then .error .alreadyExists
  else .ok (d.link place .directory)

/-- Makes a directory and every directory above it that is missing. What was made stays when a later
step fails. -/
def makeDirectories (d : Disk) (path : String) : Except IoError Unit × Disk :=
  go (path.length + 1) d path
where
  go : Nat → Disk → String → Except IoError Unit × Disk
    | 0, d, _ => (.error .notFound, d)
    | n + 1, d, path =>
      if path = "" then (.ok (), d)
      else match d.makeDirectory path with
        | .ok d => (.ok (), d)
        | .error .notFound =>
          match Path.parent? path with
          | none => (.error .notFound, d)
          | some parent =>
            match go n d parent with
            | (.error e, d) => (.error e, d)
            | (.ok (), d) => finish d path
        | .error e => if d.isDirectory path then (.ok (), d) else (.error e, d)
  finish (d : Disk) (path : String) : Except IoError Unit × Disk :=
    match d.makeDirectory path with
    | .ok d => (.ok (), d)
    | .error e => if d.isDirectory path then (.ok (), d) else (.error e, d)

/-- The file at a path, made empty if there is none. -/
def openOrCreate (d : Disk) (path : String) : Except IoError (FileId × Disk) := do
  let place ← d.target path
  if Path.endsInSeparator path ∨ !endsInName path then .error .isDirectory
  else match d.kind? place with
    | some .directory => .error .isDirectory
    | some (.file id) => .ok (id, d)
    | none =>
      let id := d.contents.length
      .ok (id, { d.link place (.file id) with contents := d.contents ++ [.ofBytes []] })

/-- Removes the name of a file. -/
def remove (d : Disk) (path : String) : Except IoError Disk := do
  match ← d.resolve path with
  | (_, .directory) => .error .isDirectory
  | (place, .file _) => .ok (d.unlink place)

/-! ## Contents -/

def file (d : Disk) (id : FileId) : FileContent := d.contents.getD id (.ofBytes [])

def setFile (d : Disk) (id : FileId) (f : FileContent) : Disk :=
  { d with contents := d.contents.set id f }

def content (d : Disk) (id : FileId) : Bytes := (d.file id).bytes

def setContent (d : Disk) (id : FileId) (bytes : Bytes) : Disk := d.setFile id (.ofBytes bytes)

/-- The largest offset in a file: offsets are signed numbers of 64 bits. -/
def largestOffset : Nat := 0x7FFFFFFFFFFFFFFF

/-- Cuts a file to `n` bytes or extends it by zeros. -/
def setLength (d : Disk) (id : FileId) (n : Nat) : Except IoError Disk :=
  if largestOffset < n then .error .sizeTooLarge
  else match d.system.lengthFailure n with
    | some cause => .error cause
    | none => .ok (d.setFile id ((d.file id).setLength n))

/-- Gives a file `n` bytes and maps them. A file that cannot be mapped has its new length all the
same. -/
def mapSized (d : Disk) (id : FileId) (n : Nat) : Except IoError Unit × Disk :=
  match d.setLength id n with
  | .error cause => (.error cause, d)
  | .ok d =>
    match d.system.mapFailure n with
    | some cause => (.error cause, d)
    | none => (.ok (), d)

/-- Puts `data` into a file that is mapped. -/
def put (d : Disk) (id : FileId) (offset : Nat) (data : Bytes) : Disk :=
  d.setFile id ((d.file id).put offset data)

/-- Writes the pages of the first `size` bytes of a file out. -/
def writeOut (d : Disk) (id : FileId) (size : Nat) : Disk :=
  d.setFile id ((d.file id).writeOut size)

/-- Waits until the disk has taken what was written out of a mapping of `size` bytes. -/
def sync (d : Disk) (size : Nat) : Except IoError Unit :=
  match d.system.syncFailure size with
  | some cause => .error cause
  | none => .ok ()

def read (d : Disk) (path : String) : Except IoError Bytes := do
  match ← d.resolve path with
  | (_, .directory) => .error .isDirectory
  | (_, .file id) => .ok (d.content id)

/-- Makes `bytes` the content of the file at a path. -/
def write (d : Disk) (path : String) (bytes : Bytes) : Except IoError Disk := do
  let (id, d) ← d.openOrCreate path
  .ok (d.setContent id bytes)

/-- Makes `bytes` the content of the file at a path, with the directories it needs. -/
def install (d : Disk) (path : String) (bytes : Bytes) : Except IoError Unit × Disk :=
  match (Path.parent? path).map d.makeDirectories with
  | some (.error e, d) => (.error e, d)
  | some (.ok (), d) => finish d
  | none => finish d
where
  finish (d : Disk) : Except IoError Unit × Disk :=
    match d.write path bytes with
    | .ok d => (.ok (), d)
    | .error e => (.error e, d)

/-! ## Listing -/

/-- The path of a place below another one, as names from the outside in. -/
def below? (base place : Place) : Option (List String) :=
  if base.isSuffixOf place then some (place.take (place.length - base.length)).reverse else none

/-- The path and the size of each file below the directory in which relative paths start, by path.
-/
def files (d : Disk) : List (String × Nat) :=
  let found := d.entries.filterMap fun (place, kind) =>
    match kind with
    | .directory => none
    | .file id => (below? d.here place).map fun names =>
      ("/".intercalate names, (d.file id).length)
  found.mergeSort fun a b => !(b.1 < a.1)

/-! ## The tree and the contents -/

@[simp] theorem kind?_setFile (d : Disk) (id : FileId) (f : FileContent) (place : Place) :
    (d.setFile id f).kind? place = d.kind? place := rfl

theorem file_setFile_of_lt {d : Disk} {id : FileId} (h : id < d.contents.length)
    (f : FileContent) : (d.setFile id f).file id = f := by
  simp [file, setFile, h]

theorem file_setFile_of_ne (d : Disk) {i j : FileId} (h : i ≠ j) (f : FileContent) :
    (d.setFile i f).file j = d.file j := by
  simp [file, setFile, List.getElem?_set_ne h]

/-- A number that no file has stands for an empty one. -/
theorem file_setFile_of_le {d : Disk} {id : FileId} (h : d.contents.length ≤ id)
    (f : FileContent) : (d.setFile id f).file id = .ofBytes [] := by
  simp [file, setFile, h]

theorem content_setContent_of_lt {d : Disk} {id : FileId} (h : id < d.contents.length)
    (bytes : Bytes) : (d.setContent id bytes).content id = bytes := by
  rw [content, setContent, file_setFile_of_lt h, FileContent.bytes_ofBytes]

theorem content_of_le {d : Disk} {id : FileId} (h : d.contents.length ≤ id) :
    d.content id = [] := by
  simp [content, file, h]

/-- What is put into a file that is mapped takes its place in the file; nothing grows. -/
theorem content_put (d : Disk) (id : FileId) (offset : Nat) (data : Bytes) :
    (d.put id offset data).content id = (d.content id).overwrite offset data := by
  by_cases h : id < d.contents.length
  · rw [content, put, file_setFile_of_lt h, FileContent.bytes_put, content]
  · have h := Nat.le_of_not_lt h
    rw [content_of_le h, content, put, file_setFile_of_le h]
    simp [Bytes.overwrite]

theorem content_put_of_ne (d : Disk) {i j : FileId} (h : i ≠ j) (offset : Nat) (data : Bytes) :
    (d.put i offset data).content j = d.content j := by
  rw [content, put, file_setFile_of_ne d h, content]

/-- Writing out changes no file. -/
@[simp] theorem content_writeOut (d : Disk) (i j : FileId) (size : Nat) :
    (d.writeOut i size).content j = d.content j := by
  by_cases h : i = j
  · subst h
    by_cases hi : i < d.contents.length
    · rw [content, writeOut, file_setFile_of_lt hi, FileContent.bytes_writeOut, content]
    · have hi := Nat.le_of_not_lt hi
      rw [content_of_le hi, content, writeOut, file_setFile_of_le hi, FileContent.bytes_ofBytes]
  · rw [content, writeOut, file_setFile_of_ne d h, content]

theorem length_content (d : Disk) (id : FileId) : (d.content id).length = (d.file id).length :=
  (d.file id).length_bytes

end Disk

end FileMesh
