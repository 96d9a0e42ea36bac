import FileMesh.Chunk

/-!
# Verified chunks

Which chunks of a file match their declared hashes, as the bits of one byte: bit `i` stands for
chunk `i`. Indices that name no chunk are never verified and setting them does nothing.
-/

namespace FileMesh

/-- A set of chunks: bit `i` is set for chunk `i`. -/
structure VerifiedChunks where
  bits : UInt8
deriving DecidableEq, Repr, Inhabited

namespace VerifiedChunks

def none : VerifiedChunks := ⟨0⟩

def all : VerifiedChunks := ⟨0xFF⟩

def has (v : VerifiedChunks) (index : Nat) : Bool :=
  index < chunkCount && (v.bits &&& (1 <<< UInt8.ofNat index)) != 0

def set (v : VerifiedChunks) (index : Nat) : VerifiedChunks :=
  if index < chunkCount then ⟨v.bits ||| (1 <<< UInt8.ofNat index)⟩ else v

def isComplete (v : VerifiedChunks) : Bool := v == all

/-- The chunks in the set, in ascending order. -/
def verified (v : VerifiedChunks) : List Nat := (List.range chunkCount).filter v.has

/-- The chunks still missing, in ascending order. -/
def unverified (v : VerifiedChunks) : List Nat := (List.range chunkCount).filter fun i => !v.has i

def count (v : VerifiedChunks) : Nat := v.verified.length

/-- The set of the chunks for which `p` holds. -/
def ofPredicate (p : ChunkIndex → Bool) : VerifiedChunks :=
  ChunkIndex.all.foldl (fun v i => if p i then v.set i else v) none

theorem set_of_le {index : Nat} (v : VerifiedChunks) (h : chunkCount ≤ index) :
    v.set index = v := by
  simp [set, Nat.not_lt.mpr h]

theorem has_of_le {index : Nat} (v : VerifiedChunks) (h : chunkCount ≤ index) :
    v.has index = false := by
  simp [has, Nat.not_lt.mpr h]

@[simp] theorem has_none (index : Nat) : none.has index = false := by
  simp [has, none]

@[simp] theorem isComplete_all : all.isComplete = true := rfl

end VerifiedChunks

end FileMesh
