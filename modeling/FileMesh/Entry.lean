import FileMesh.Descriptor
import FileMesh.Disk.OpenFile
import FileMesh.VerifiedChunks

/-!
# Entries

An entry is a descriptor together with the file that backs it. A local entry has its file from the
beginning; an entry learned from a peer gets one when a chunk is opened for the first time. Opening
cuts or extends the file to the declared size and keeps it mapped; from then on chunks are read and
written in the mapping, at the declared size, whatever happens to the file and its name. Saving
writes it out and unmaps it.
-/

namespace FileMesh

/-- Why something about an entry fails. A file can be too small to be shared and a name too long for
its field on the wire, and the zero hash names nothing. -/
inductive StoreError where
  | tooSmall (size : Nat)
  | nameTooLong (length : Nat)
  | duplicate (hash : ContentHash)
  | reservedHash
  | noSuchChunk (index : Nat)
  | io (cause : IoError)
deriving DecidableEq, Repr

namespace StoreError

/-- The least size of a file that can be shared. -/
def smallestFile : Nat := 512

def message : StoreError → String
  | tooSmall size =>
    "file is " ++ toString size ++ " bytes, minimum is " ++ toString smallestFile
  | nameTooLong length =>
    "name is " ++ toString length ++ " bytes, limit is " ++ toString nameWidth
  | duplicate hash => hash.hex ++ " is already in the store"
  | reservedHash => "the all-zero hash is reserved"
  | noSuchChunk index => "no chunk " ++ toString index
  | io cause => cause.message

end StoreError

/-- Where an entry comes from: a file of this host or the descriptor of a peer. -/
inductive Origin where
  | host
  | network
deriving DecidableEq, Repr, Inhabited

/-- A descriptor and the file behind it. An entry has a `path` once it was opened, and until then
its file is to be made at `destination`. The file is its `mapping` while it is mapped. -/
structure Entry where
  descriptor : Descriptor
  origin : Origin
  destination : String
  path : Option String
  mapping : Option FileId
deriving Repr, Inhabited

namespace Entry

def ofFile (descriptor : Descriptor) (path : String) : Entry :=
  ⟨descriptor, .host, path, some path, none⟩

def ofPeer (descriptor : Descriptor) (destination : String) : Entry :=
  ⟨descriptor, .network, destination, none, none⟩

def size (e : Entry) : Nat := e.descriptor.size.toNat

def isMapped (e : Entry) : Bool := e.mapping.isSome

/-- The path at which the file is opened. -/
def backingPath (e : Entry) : String := e.path.getD e.destination

/-! ## Opening and saving -/

/-- Opens the file at a path, made if there is none, gives it `size` bytes and maps them. -/
def openMapped (disk : Disk) (path : String) (size : Nat) : Except IoError FileId × Disk :=
  match disk.openOrCreate path with
  | .error cause => (.error cause, disk)
  | .ok (id, disk) =>
    let (mapped, disk) := disk.mapSized id size
    (mapped.map fun () => id, disk)

/-- Opens and maps the file at a path, in a directory that is made if it is missing. What was made
or changed stays when a later step fails. -/
def mapFile (disk : Disk) (path : String) (size : Nat) : Except IoError FileId × Disk :=
  match (Path.parent? path).filter (· ≠ "") with
  | none => openMapped disk path size
  | some parent =>
    match disk.makeDirectories parent with
    | (.error cause, disk) => (.error cause, disk)
    | (.ok (), disk) => openMapped disk path size

/-- Opens the file unless it is mapped. The entry keeps the path even if opening fails. -/
def openFile (disk : Disk) (e : Entry) : Except StoreError Unit × Entry × Disk :=
  match e.mapping with
  | some _ => (.ok (), e, disk)
  | none =>
    let e := { e with path := some e.backingPath }
    match mapFile disk e.backingPath e.size with
    | (.error cause, disk) => (.error (.io cause), e, disk)
    | (.ok id, disk) => (.ok (), { e with mapping := some id }, disk)

/-- Opens a chunk and gives its range in the mapping. -/
def openChunk (disk : Disk) (e : Entry) (index : Nat) :
    Except StoreError ChunkRange × Entry × Disk :=
  match e.descriptor.chunkRange? index with
  | none => (.error (.noSuchChunk index), e, disk)
  | some range =>
    let (result, e, disk) := openFile disk e
    (result.map fun () => range, e, disk)

/-- Unmaps the file. The entry keeps its path. -/
def unmap (e : Entry) : Entry := { e with mapping := none }

/-- Writes a file that is mapped out. -/
def writeOut (disk : Disk) (e : Entry) : Disk :=
  match e.mapping with
  | some id => disk.writeOut id e.size
  | none => disk

/-- Waits until the disk has taken a file that is mapped. -/
def sync (disk : Disk) (e : Entry) : Except StoreError Unit :=
  match e.mapping with
  | some _ => (disk.sync e.size).mapError .io
  | none => .ok ()

/-- Writes the file out and unmaps it. It is unmapped even if the disk does not take it. -/
def save (disk : Disk) (e : Entry) : Except StoreError Unit × Entry × Disk :=
  (e.sync disk, e.unmap, e.writeOut disk)

/-! ## Reading and writing -/

/-- The bytes of a range of a file that is mapped. -/
def rangeOf (f : FileContent) (r : ChunkRange) : Bytes := f.range r.start.toNat r.length.toNat

/-- The bytes of a range of the mapping; none if there is no mapping. -/
def view (disk : Disk) (e : Entry) (r : ChunkRange) : Bytes :=
  match e.mapping with
  | some id => rangeOf (disk.file id) r
  | none => []

/-- Puts `data` into a range of the mapping, `offset` bytes after its start. What the range has no
room for is lost. -/
def put (disk : Disk) (e : Entry) (r : ChunkRange) (offset : Nat) (data : Bytes) : Disk :=
  match e.mapping with
  | some id => disk.put id (r.start.toNat + offset) (data.take (r.length.toNat - offset))
  | none => disk

def readChunk (disk : Disk) (e : Entry) (index : Nat) : Except StoreError Bytes × Entry × Disk :=
  let (result, e, disk) := openChunk disk e index
  (result.map (view disk e), e, disk)

/-- Puts `data` into a chunk and gives the whole chunk. -/
def writeChunk (disk : Disk) (e : Entry) (index offset : Nat) (data : Bytes) :
    Except StoreError Bytes × Entry × Disk :=
  match openChunk disk e index with
  | (.error cause, e, disk) => (.error cause, e, disk)
  | (.ok range, e, disk) =>
    let disk := put disk e range offset data
    (.ok (view disk e range), e, disk)

/-! ## Verifying -/

/-- The chunks of a mapping that match. A whole file that matches counts as all of them. -/
def verifyMapped (d : Descriptor) (f : FileContent) : VerifiedChunks :=
  if ContentHash.ofContent (f.mapped d.size.toNat) = d.hash then .all
  else .ofPredicate fun i =>
    ContentHash.ofContent (rangeOf f (.ofIndex d.size i)) = d.chunkHashes[i]

/-- Adds the chunks that match, in order, up to the first that cannot be read. -/
def verifyInOrder (hashOf : ChunkIndex → Except IoError ContentHash) (d : Descriptor) :
    List ChunkIndex → VerifiedChunks → VerifiedChunks
  | [], v => v
  | i :: rest, v =>
    match hashOf i with
    | .error _ => v
    | .ok h => verifyInOrder hashOf d rest (if h = d.chunkHashes[i] then v.set i else v)

/-- The hash of a chunk's range of what is open. -/
def hashChunk (disk : Disk) (kind : NodeKind) (d : Descriptor) (i : ChunkIndex) :
    Except IoError ContentHash :=
  let r := ChunkRange.ofIndex d.size i
  disk.hashRange kind r.start.toNat r.length.toNat

/-- Whether what is open has the declared size and the declared hash. -/
def matchesWhole (disk : Disk) (kind : NodeKind) (d : Descriptor) : Bool :=
  disk.sizeOf kind = d.size.toNat &&
    match disk.hashRange kind 0 d.size.toNat with
    | .ok h => h = d.hash
    | .error _ => false

/-- The chunks that match in what is at a path. -/
def verifyPath (disk : Disk) (d : Descriptor) (path : String) : VerifiedChunks :=
  match disk.openToRead path with
  | .error _ => .none
  | .ok kind =>
    if matchesWhole disk kind d then .all
    else verifyInOrder (hashChunk disk kind d) d ChunkIndex.all .none

/-- The chunks that match their declared hashes. An entry without a file has none. -/
def verify (disk : Disk) (e : Entry) : VerifiedChunks :=
  match e.mapping with
  | some id => verifyMapped e.descriptor (disk.file id)
  | none =>
    match e.path with
    | some path => verifyPath disk e.descriptor path
    | none => .none

/-- The hash of chunk `i` as it is, if the file can be read. -/
def currentHash? (disk : Disk) (e : Entry) (i : ChunkIndex) : Option ContentHash :=
  match e.mapping with
  | some id => some (.ofContent (rangeOf (disk.file id) (.ofIndex e.descriptor.size i)))
  | none => do
    let path ← e.path
    let kind ← (disk.openToRead path).toOption
    (hashChunk disk kind e.descriptor i).toOption

/-- Whether a chunk alone matches its declared hash. -/
def verifyChunk (disk : Disk) (e : Entry) (index : Nat) : Bool :=
  if h : index < chunkCount then
    currentHash? disk e ⟨index, h⟩ = some e.descriptor.chunkHashes[index]
  else false

/-- Saving changes no file. -/
@[simp] theorem content_save (disk : Disk) (e : Entry) (id : FileId) :
    (e.save disk).2.2.content id = disk.content id := by
  simp only [save, writeOut]
  split
  · exact disk.content_writeOut _ id _
  · rfl

end Entry

end FileMesh
