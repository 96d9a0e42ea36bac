import FileMesh.Entry
import FileMesh.Table

/-!
# Stores

A store holds the entries of a node by content hash. What is in it can be passed on to peers, so an
entry whose name does not fit on the wire is refused, and so are a hash that is known and the zero
hash. Files of entries from peers are made in the download directory, under the last name in the
declared one, or under the hash if there is none.
-/

namespace FileMesh

/-- The entries of a node by hash, and the directory in which files are made. -/
structure Store where
  downloadDir : String
  table : Table Entry

namespace Store

def empty (downloadDir : String) : Store := ⟨downloadDir, .empty⟩

instance : Inhabited Store := ⟨empty "."⟩

/-! ## Looking up -/

def lookup (s : Store) (hash : ContentHash) : Option Entry := s.table.get? hash

def contains (s : Store) (hash : ContentHash) : Bool := s.table.contains hash

/-- All entries, in slot order. -/
def entries (s : Store) : List Entry := s.table.values

/-- All descriptors, in slot order. -/
def descriptors (s : Store) : List Descriptor := s.entries.map Entry.descriptor

/-- The first entry, in slot order, with a name. -/
def findByName (s : Store) (name : String) : Option Entry :=
  s.entries.find? (·.descriptor.name = name)

def size (s : Store) : Nat := s.table.size

def isEmpty (s : Store) : Bool := s.table.isEmpty

/-! ## Adding -/

def insert (s : Store) (e : Entry) : Except StoreError Store :=
  if nameWidth < e.descriptor.nameLength then .error (.nameTooLong e.descriptor.nameLength)
  else match s.table.insert e.descriptor.hash e with
    | .ok table => .ok { s with table }
    | .error (.duplicate hash) => .error (.duplicate hash)
    | .error .reservedHash => .error .reservedHash

/-- The name under which the file of a descriptor is made. -/
def fileName (d : Descriptor) : String := (Path.fileName? d.name).getD d.hash.hex

/-- Adds an entry for a peer's descriptor. -/
def add (s : Store) (d : Descriptor) : Except StoreError Store :=
  s.insert (.ofPeer d (Path.join s.downloadDir (fileName d)))

/-- Adds an entry for a file of this host. -/
def addFile (s : Store) (d : Descriptor) (path : String) : Except StoreError Store :=
  s.insert (.ofFile d path)

def modify (s : Store) (hash : ContentHash) (f : Entry → Entry) : Store :=
  { s with table := s.table.modify hash f }

/-- Saves every entry. -/
def saveAll (disk : Disk) (s : Store) : Store × Disk :=
  ({ s with table := s.table.map Entry.unmap }, s.entries.foldl Entry.writeOut disk)

/-! ## Sharing -/

/-- The hashes of the chunks of what is open. The last chunk is read first: it is the one whose
length differs. -/
def hashChunks (disk : Disk) (kind : NodeKind) (size : UInt64) :
    Except IoError (Vector ContentHash chunkCount) := do
  let hashOf (i : ChunkIndex) :=
    let r := ChunkRange.ofIndex size i
    disk.hashRange kind r.start.toNat r.length.toNat
  let last ← hashOf (.last 7)
  let others ← Vector.ofFnM fun i : Fin 7 => hashOf i.castSucc
  .ok (others.push last)

/-- The descriptor of what is open. A hash that the store knows is refused before the chunks are
read. -/
def describe (s : Store) (disk : Disk) (kind : NodeKind) (name : String) :
    Except StoreError Descriptor := do
  let size := disk.sizeOf kind
  if size < StoreError.smallestFile then .error (.tooSmall size)
  else do
    let hash ← (disk.hashRange kind 0 size).mapError .io
    if s.contains hash then .error (.duplicate hash)
    else do
      let size := UInt64.ofNat size
      let chunkHashes ← (hashChunks disk kind size).mapError .io
      .ok { name, hash, chunkHashes, size }

/-- Describes the file at a path under a name and adds an entry for it. -/
def share (s : Store) (disk : Disk) (path name : String) :
    Except StoreError (Descriptor × Store) := do
  let nameLength := (Utf8.encode name).length
  if nameWidth < nameLength then .error (.nameTooLong nameLength)
  else do
    let kind ← (disk.openToRead path).mapError .io
    let descriptor ← s.describe disk kind name
    let s ← s.addFile descriptor path
    .ok (descriptor, s)

/-! ## Refusals -/

theorem insert_of_long {s : Store} {e : Entry} (h : nameWidth < e.descriptor.nameLength) :
    s.insert e = .error (.nameTooLong e.descriptor.nameLength) := if_pos h

/-- What is in a store has a name that fits on the wire. -/
theorem nameLength_le_of_insert {s t : Store} {e : Entry} (h : s.insert e = .ok t) :
    e.descriptor.nameLength ≤ nameWidth := by
  by_cases hn : nameWidth < e.descriptor.nameLength
  · rw [insert_of_long hn] at h
    cases h
  · exact Nat.le_of_not_lt hn

end Store

end FileMesh
