/-!
# Chunk geometry

Every file is cut into eight chunks. The first seven have an eighth of the size, rounded down; the
last one takes the rest. The arithmetic is on 64-bit words, as sizes are on the wire.
-/

namespace FileMesh

/-- The number of chunks of a file. -/
abbrev chunkCount : Nat := 8

/-- The number of a chunk. -/
abbrev ChunkIndex := Fin chunkCount

def ChunkIndex.all : List ChunkIndex := List.finRange chunkCount

/-- The bytes from `start` up to but not including `stop`. -/
structure ChunkRange where
  start : UInt64
  stop : UInt64
deriving DecidableEq, Repr, Inhabited

namespace ChunkRange

def length (r : ChunkRange) : UInt64 := r.stop - r.start

/-- The range of chunk `i` of a file of `size` bytes. -/
def ofIndex (size : UInt64) (i : ChunkIndex) : ChunkRange :=
  let base := size / 8
  let start := base * UInt64.ofNat i.val
  ⟨start, if i.val = 7 then size else start + base⟩

/-- The range of chunk `index`, if there is such a chunk. -/
def ofIndex? (size : UInt64) (index : Nat) : Option ChunkRange :=
  if h : index < chunkCount then some (ofIndex size ⟨index, h⟩) else none

/-- What is said of an index that names no chunk. -/
def outOfRangeMessage (index : Nat) : String := "chunk index " ++ toString index ++ " out of range"

theorem ofIndex?_isSome (size : UInt64) (index : Nat) :
    (ofIndex? size index).isSome = true ↔ index < chunkCount := by
  simp only [ofIndex?]
  split <;> simp_all

end ChunkRange

end FileMesh
