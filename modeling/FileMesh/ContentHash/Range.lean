import FileMesh.ContentHash
import FileMesh.IoError

/-!
# Hashing a range of a source

A range is read and hashed in blocks of 8192 bytes, so that a large file need not be held in
memory. The declared range has to exist in full: running out of bytes is a failure, whatever was
read before.
-/

namespace FileMesh

/-- The bytes of a source from the reading position on. The position may lie past the end of the
source. -/
structure Cursor where
  unread : Bytes
  position : Nat

namespace Cursor

/-- A source with the reading position `offset`. -/
def seek (source : Bytes) (offset : Nat) : Cursor := ⟨source.drop offset, offset⟩

def readExact (c : Cursor) (n : Nat) : Except IoError (Bytes × Cursor) :=
  let block := c.unread.take n
  if block.length = n then .ok (block, ⟨c.unread.drop n, c.position + n⟩)
  else .error .shortRead

end Cursor

namespace ContentHash

def blockSize : Nat := 8192

/-- Feeds the next `remaining` bytes to the hasher, block by block. -/
def absorb (c : Cursor) (h : Hasher) (remaining : Nat) : Except IoError (Hasher × Cursor) :=
  if remaining = 0 then .ok (h, c)
  else
    let want := min remaining blockSize
    match c.readExact want with
    | .error e => .error e
    | .ok (block, rest) => absorb rest (h.update block) (remaining - want)
termination_by remaining
decreasing_by
  simp only [blockSize]
  omega

/-- The hash of the `length` bytes from `offset` on, and the reading position afterwards. -/
def ofRange (source : Bytes) (offset length : Nat) : Except IoError (ContentHash × Nat) :=
  match absorb (.seek source offset) .new length with
  | .error e => .error e
  | .ok (h, c) => .ok (h.finish, c.position)

end ContentHash

end FileMesh
