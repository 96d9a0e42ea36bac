import FileMesh.Blake3

/-!
# Content hashes

Files and chunks are named by the first sixteen bytes of their BLAKE3 hash. The all-zero hash names
nothing: it is reserved.
-/

namespace FileMesh

/-- The name of a piece of content: sixteen bytes. -/
structure ContentHash where
  bytes : Bytes
  length_bytes : bytes.length = 16
deriving DecidableEq, Repr

namespace ContentHash

def width : Nat := 16

/-- The hash made of the first sixteen bytes; bytes that are missing are zero. -/
def ofBytes (b : Bytes) : ContentHash := ⟨b.resize 16, Bytes.length_resize b 16⟩

/-- The reserved hash. -/
def zero : ContentHash := ofBytes []

instance : Inhabited ContentHash := ⟨zero⟩

def isZero (h : ContentHash) : Bool := h == zero

@[simp] theorem isZero_iff (h : ContentHash) : h.isZero = true ↔ h = zero := by
  simp [isZero]

/-- The first eight bytes as a number, least significant first: where a table starts to look. -/
def home (h : ContentHash) : Nat := Bytes.toNatLE (h.bytes.take 8)

def hex (h : ContentHash) : String := h.bytes.hex

/-- The first four bytes in hexadecimal, for people to read. -/
def short (h : ContentHash) : String := Bytes.hex (h.bytes.take 4)

def ofContent (data : Bytes) : ContentHash := ofBytes (Blake3.digest data)

@[simp] theorem ofBytes_bytes (h : ContentHash) : ofBytes h.bytes = h := by
  cases h with
  | mk b hb => simp [ofBytes, Bytes.resize, Bytes.zeros, hb, List.take_of_length_le]

theorem bytes_ofBytes {b : Bytes} (h : b.length = 16) : (ofBytes b).bytes = b := by
  simp [ofBytes, Bytes.resize, Bytes.zeros, h, List.take_of_length_le]

end ContentHash

/-- Hashes data that arrives in pieces. The latest one is the first. -/
structure Hasher where
  pieces : List Bytes
deriving Inhabited

namespace Hasher

def new : Hasher := ⟨[]⟩

def update (h : Hasher) (piece : Bytes) : Hasher := ⟨piece :: h.pieces⟩

/-- Everything taken in so far. -/
def absorbed (h : Hasher) : Bytes := h.pieces.reverse.flatten

def finish (h : Hasher) : ContentHash := .ofContent h.absorbed

@[simp] theorem absorbed_new : new.absorbed = [] := rfl

@[simp] theorem absorbed_update (h : Hasher) (piece : Bytes) :
    (h.update piece).absorbed = h.absorbed ++ piece := by
  simp [absorbed, update]

theorem absorbed_foldl (h : Hasher) (pieces : List Bytes) :
    (pieces.foldl update h).absorbed = h.absorbed ++ pieces.flatten := by
  induction pieces generalizing h with
  | nil => simp
  | cons p rest ih => simp [ih]

end Hasher

end FileMesh
