import FileMesh.Chunk
import FileMesh.ContentHash
import FileMesh.Text.Utf8
import FileMesh.Wire

/-!
# File descriptors

What the mesh knows of a file: its declared name, its size, and the hashes of the whole and of each
chunk. On the wire the name fills a field of 32 bytes, padded with NUL, and ends at the first NUL.
-/

namespace FileMesh

/-- The metadata that identifies one file across the mesh. -/
structure Descriptor where
  name : String
  hash : ContentHash
  chunkHashes : Vector ContentHash chunkCount
  size : UInt64
deriving DecidableEq, Repr, Inhabited

namespace Descriptor

abbrev width : Nat := 184

/-- The range of chunk `index`, if there is such a chunk. -/
def chunkRange? (d : Descriptor) (index : Nat) : Option ChunkRange :=
  ChunkRange.ofIndex? d.size index

def nameLength (d : Descriptor) : Nat := (Utf8.encode d.name).length

/-- The bytes of a descriptor on the wire. -/
def encode (d : Descriptor) : Except WireError Bytes :=
  let name := Utf8.encode d.name
  if nameWidth < name.length then .error (.nameTooLong name.length)
  else .ok (name ++ Bytes.zeros (nameWidth - name.length) ++ d.hash.bytes ++
    d.chunkHashes.toList.flatMap ContentHash.bytes ++ Bytes.ofNatBE 8 d.size.toNat)

/-- The bytes of a name field up to the first NUL. -/
def nameField (field : Bytes) : Bytes := field.takeWhile (· != 0)

/-- The descriptor in the first 184 bytes. -/
def decode (b : Bytes) : Except WireError Descriptor :=
  match Utf8.decode (nameField (Bytes.slice b 0 nameWidth)) with
  | .error validUpTo => .error (.nameNotUtf8 validUpTo)
  | .ok name => .ok {
      name
      hash := .ofBytes (Bytes.slice b 32 16)
      chunkHashes := .ofFn fun i => .ofBytes (Bytes.slice b (48 + 16 * i.val) 16)
      size := UInt64.ofNat (Bytes.toNatBE (Bytes.slice b 176 8)) }

/-- The descriptor of a content under a name. -/
def ofContent (name : String) (content : Bytes) : Descriptor :=
  let size := UInt64.ofNat content.length
  { name
    hash := .ofContent content
    chunkHashes := .ofFn fun i =>
      let r := ChunkRange.ofIndex size i
      .ofContent (Bytes.slice content r.start.toNat r.length.toNat)
    size }

end Descriptor

end FileMesh
