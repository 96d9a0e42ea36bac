import FileMesh.Address
import FileMesh.Descriptor

/-!
# Messages

What peers tell each other, and the payload of each message on the wire. Decoding takes what its
type occupies and leaves further bytes of the payload unread. A payload is checked in a fixed
order: for a request its length, the length of the return address, the index; for chunk data the
fixed part's length, the index, the length with the data.
-/

namespace FileMesh

/-- A request for one chunk of a file, to be answered at the return endpoint. The time to live is
passed on as it is. -/
structure ChunkRequest where
  hash : ContentHash
  chunkIndex : UInt32
  returnEndpoint : Endpoint
  ttl : UInt8
deriving DecidableEq, Repr, Inhabited

/-- The bytes of one chunk of a file as delivered, with the size that the sender says the chunk has.
-/
structure ChunkData where
  hash : ContentHash
  chunkIndex : UInt32
  declaredSize : UInt32
  data : Bytes
deriving DecidableEq, Repr, Inhabited

/-- Everything a peer can say: there is this file, who has this chunk, here is a chunk, what is my
address, and this is your address. -/
inductive Message where
  | fileDef (descriptor : Descriptor)
  | requestFileData (request : ChunkRequest)
  | fileData (chunk : ChunkData)
  | requestAddrSelf
  | addrSelf (address : Endpoint)
deriving DecidableEq, Repr, Inhabited

/-- The four octets and the port of an endpoint. -/
def Endpoint.encode (e : Endpoint) : Bytes := e.ip.octets ++ Bytes.ofNatBE 2 e.port.toNat

/-- The endpoint in the first six bytes. -/
def Endpoint.decode (b : Bytes) : Endpoint :=
  let octet (i : Nat) : UInt8 := b.getD i 0
  ⟨⟨octet 0, octet 1, octet 2, octet 3⟩, UInt16.ofNat (Bytes.toNatBE (Bytes.slice b 4 2))⟩

abbrev ChunkRequest.width : Nat := 28

/-- The number of bytes before the data of a chunk. -/
abbrev ChunkData.fixedWidth : Nat := 24

abbrev Endpoint.width : Nat := 6

namespace Message

def type : Message → MessageType
  | fileDef _ => .fileDef
  | requestFileData _ => .requestFileData
  | fileData _ => .fileData
  | requestAddrSelf => .requestAddrSelf
  | addrSelf _ => .addrSelf

def encodeRequest (r : ChunkRequest) : Bytes :=
  r.hash.bytes ++ Bytes.ofNatBE 4 r.chunkIndex.toNat ++ r.returnEndpoint.encode ++
    [UInt8.ofNat Endpoint.width, r.ttl]

def encodeData (c : ChunkData) : Bytes :=
  c.hash.bytes ++ Bytes.ofNatBE 4 c.chunkIndex.toNat ++ Bytes.ofNatBE 4 c.declaredSize.toNat ++
    c.data

/-- The payload of a message. Only a descriptor with too long a name has none. -/
def encode : Message → Except WireError Bytes
  | fileDef d => d.encode
  | requestFileData r => .ok (encodeRequest r)
  | fileData c => .ok (encodeData c)
  | requestAddrSelf => .ok []
  | addrSelf e => .ok e.encode

/-- Passes an index on if it names a chunk. -/
def checkIndex (index : UInt32) : Except WireError UInt32 :=
  if index.toNat < chunkCount then .ok index else .error (.chunkIndex index)

/-- Refuses a payload of fewer than `needed` bytes. -/
def checkLength (kind : MessageType) (needed : Nat) (payload : Bytes) : Except WireError Unit :=
  if payload.length < needed then .error (.truncated kind needed payload.length) else .ok ()

/-- The 32-bit word at offset `i`. -/
def wordAt (payload : Bytes) (i : Nat) : UInt32 :=
  UInt32.ofNat (Bytes.toNatBE (Bytes.slice payload i 4))

def decodeRequest (payload : Bytes) : Except WireError ChunkRequest := do
  checkLength .requestFileData ChunkRequest.width payload
  let addressLength := payload.getD 26 0
  if addressLength.toNat ≠ Endpoint.width then .error (.badAddressLength addressLength)
  else
    let chunkIndex ← checkIndex (wordAt payload 16)
    .ok {
      hash := .ofBytes (Bytes.slice payload 0 16)
      chunkIndex
      returnEndpoint := .decode (Bytes.slice payload 20 6)
      ttl := payload.getD 27 0 }

def decodeData (payload : Bytes) : Except WireError ChunkData := do
  checkLength .fileData ChunkData.fixedWidth payload
  let chunkIndex ← checkIndex (wordAt payload 16)
  let declaredSize := wordAt payload 20
  checkLength .fileData (ChunkData.fixedWidth + declaredSize.toNat) payload
  .ok {
    hash := .ofBytes (Bytes.slice payload 0 16)
    chunkIndex
    declaredSize
    data := Bytes.slice payload ChunkData.fixedWidth declaredSize.toNat }

/-- The message of this type in a payload. -/
def decode (kind : MessageType) (payload : Bytes) : Except WireError Message :=
  match kind with
  | .fileDef => do
    checkLength .fileDef Descriptor.width payload
    return fileDef (← Descriptor.decode payload)
  | .requestFileData => return requestFileData (← decodeRequest payload)
  | .fileData => return fileData (← decodeData payload)
  | .requestAddrSelf => .ok requestAddrSelf
  | .addrSelf => do
    checkLength .addrSelf Endpoint.width payload
    return addrSelf (.decode payload)

end Message

end FileMesh
