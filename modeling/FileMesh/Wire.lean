import FileMesh.Bytes

/-!
# Frame headers and wire errors

A connection carries frames: one byte for the type of message, eight bytes for the payload's
length, then the payload. Integers of several bytes are big-endian. Any byte can stand in the
type's place; only five of them are types.
-/

namespace FileMesh

/-- What a frame carries. A receiver is told its own address as the sender sees it. -/
inductive MessageType where
  | fileData
  | fileDef
  | addrSelf
  | requestAddrSelf
  | requestFileData
deriving DecidableEq, Repr, Inhabited

/-- Why a payload or a name is refused. A payload can have fewer bytes than its type needs, and a
name can be UTF-8 up to some byte only. -/
inductive WireError where
  | unknownType (value : UInt8)
  | truncated (kind : MessageType) (needed actual : Nat)
  | badAddressLength (length : UInt8)
  | chunkIndex (index : UInt32)
  | nameTooLong (length : Nat)
  | nameNotUtf8 (validUpTo : Nat)
deriving DecidableEq, Repr, Inhabited

/-- The number of bytes in the name field of a descriptor. -/
abbrev nameWidth : Nat := 32

namespace MessageType

def toByte : MessageType → UInt8
  | fileData => 0x0A
  | fileDef => 0x0B
  | addrSelf => 0x0C
  | requestAddrSelf => 0x0D
  | requestFileData => 0x0E

def ofByte (value : UInt8) : Except WireError MessageType :=
  if value = 0x0A then .ok fileData
  else if value = 0x0B then .ok fileDef
  else if value = 0x0C then .ok addrSelf
  else if value = 0x0D then .ok requestAddrSelf
  else if value = 0x0E then .ok requestFileData
  else .error (.unknownType value)

def name : MessageType → String
  | fileData => "FileData"
  | fileDef => "FileDef"
  | addrSelf => "AddrSelf"
  | requestAddrSelf => "RequestAddrSelf"
  | requestFileData => "RequestFileData"

theorem ofByte_toByte (t : MessageType) : ofByte t.toByte = .ok t := by
  cases t <;> rfl

theorem toByte_of_ofByte {b : UInt8} {t : MessageType} (h : ofByte b = .ok t) : t.toByte = b := by
  simp only [ofByte] at h
  split at h
  · cases h; simp_all [toByte]
  split at h
  · cases h; simp_all [toByte]
  split at h
  · cases h; simp_all [toByte]
  split at h
  · cases h; simp_all [toByte]
  split at h
  · cases h; simp_all [toByte]
  · cases h

end MessageType

def WireError.message : WireError → String
  | unknownType value => "unknown message type: 0x" ++ Bytes.hex [value]
  | truncated kind needed actual =>
    kind.name ++ " payload is " ++ toString actual ++ " bytes, need at least " ++ toString needed
  | badAddressLength length => "unsupported return address length " ++ toString length.toNat
  | chunkIndex index => "chunk index " ++ toString index.toNat ++ " out of range"
  | nameTooLong length =>
    "name is " ++ toString length ++ " bytes, limit is " ++ toString nameWidth
  | nameNotUtf8 validUpTo =>
    "name is not UTF-8 (valid up to byte " ++ toString validUpTo ++ ")"

/-- What precedes a payload: a byte in the place of the type, which may be any byte, and the number
of payload bytes. -/
structure FrameHeader where
  kind : UInt8
  length : UInt64
deriving DecidableEq, Repr, Inhabited

namespace FrameHeader

/-- The number of bytes in a header. -/
abbrev width : Nat := 9

/-- The header of a payload of `length` bytes of this type. -/
def new (kind : MessageType) (length : UInt64) : FrameHeader := ⟨kind.toByte, length⟩

def messageType (h : FrameHeader) : Except WireError MessageType := MessageType.ofByte h.kind

def encode (h : FrameHeader) : Bytes := h.kind :: Bytes.ofNatBE 8 h.length.toNat

/-- The header in the first nine bytes. -/
def decode (b : Bytes) : FrameHeader :=
  ⟨b.headD 0, UInt64.ofNat (Bytes.toNatBE (Bytes.slice b 1 8))⟩

/-- The header that nine bytes are; other lengths are no header. -/
def decode? (b : Bytes) : Option FrameHeader := if b.length = width then some (decode b) else none

@[simp] theorem length_encode (h : FrameHeader) : h.encode.length = width := by
  simp [encode]

end FrameHeader

end FileMesh
