import FileMesh.Bytes

/-!
# File contents

A file is kept in whole pages. Who has it mapped sees the rest of its last page as well and can put
bytes there, behind the end of the file. They are no part of it: whoever reads the file stops before
them. All mappings show them until the page is written out or the file gets a length. Zeros at the
end need not be kept, so a long file that is mostly empty is small in memory.

A mapping of a file that was cut may be longer than the pages of the file. Whoever touches it behind
the last page is ended by the system. What a mapping shows and takes up there has no meaning:
`FileContent.range`, `FileContent.mapped` and `FileContent.put` are about what `FileContent.Covers`
says can be touched.
-/

namespace FileMesh

/-- What is in a file and behind its end: `memory` has the bytes from the beginning on, zeros
follow, and the first `length` of them are the file. -/
structure FileContent where
  memory : Bytes
  length : Nat
deriving DecidableEq, Repr, Inhabited

namespace FileContent

def pageSize : Nat := 4096

/-- A file with these bytes and nothing behind them. -/
def ofBytes (bytes : Bytes) : FileContent := ⟨bytes, bytes.length⟩

def bytes (f : FileContent) : Bytes := f.memory.resize f.length

/-- Cuts the file to `n` bytes or extends it by zeros. Nothing stays behind the end. -/
def setLength (f : FileContent) (n : Nat) : FileContent := ⟨f.memory.take (min f.length n), n⟩

/-- Where the last page ends. -/
def pagesEnd (f : FileContent) : Nat := (f.length + (pageSize - 1)) / pageSize * pageSize

/-- The pages of the file reach over the `n` bytes from `start` on, so a mapping can be touched
there. -/
def Covers (f : FileContent) (start n : Nat) : Prop := n = 0 ∨ start + n ≤ f.pagesEnd

instance (f : FileContent) (start n : Nat) : Decidable (f.Covers start n) :=
  inferInstanceAs (Decidable (_ ∨ _))

/-- What a mapping of `size` bytes shows. -/
def mapped (f : FileContent) (size : Nat) : Bytes := f.memory.resize size

/-- The `n` bytes from `start` on that a mapping shows, if they can be touched. -/
def range (f : FileContent) (start n : Nat) : Bytes := (f.memory.slice start n).resize n

/-- Puts `data` into a mapping where it can be touched. -/
def put (f : FileContent) (offset : Nat) (data : Bytes) : FileContent :=
  let data := data.take (f.pagesEnd - offset)
  let reach := max f.memory.length (offset + data.length)
  { f with memory := (f.memory.resize reach).overwrite offset data }

/-- Writes the pages of the first `size` bytes out. Only the file itself is written. -/
def writeOut (f : FileContent) (size : Nat) : FileContent :=
  if f.length / pageSize * pageSize < size then { f with memory := f.memory.take f.length } else f

@[simp] theorem length_bytes (f : FileContent) : f.bytes.length = f.length :=
  f.memory.length_resize f.length

@[simp] theorem length_put (f : FileContent) (offset : Nat) (data : Bytes) :
    (f.put offset data).length = f.length := rfl

@[simp] theorem bytes_ofBytes (bytes : Bytes) : (ofBytes bytes).bytes = bytes :=
  bytes.resize_length

theorem le_pagesEnd (f : FileContent) : f.length ≤ f.pagesEnd := by
  simp only [pagesEnd, pageSize]
  omega

theorem covers_of_le {f : FileContent} {start n : Nat} (h : start + n ≤ f.length) :
    f.Covers start n := .inr (Nat.le_trans h f.le_pagesEnd)

/-- A file of one byte has one page. -/
example : (ofBytes [7]).Covers 0 4096 ∧ ¬ (ofBytes [7]).Covers 4095 2 := by decide

/-- What can be touched depends on the length alone. -/
theorem covers_congr {f g : FileContent} (h : g.length = f.length) (start n : Nat) :
    g.Covers start n ↔ f.Covers start n := by
  rw [Covers, Covers, pagesEnd, pagesEnd, h]

theorem bytes_setLength (f : FileContent) (n : Nat) :
    (f.setLength n).bytes = f.bytes.resize n := by
  apply List.ext_getElem?
  intro i
  simp only [bytes, setLength, Bytes.getElem?_resize, List.getElem?_take]
  grind

/-- What is put into a mapping takes its place in the file; nothing grows. -/
theorem bytes_put (f : FileContent) (offset : Nat) (data : Bytes) :
    (f.put offset data).bytes = f.bytes.overwrite offset data := by
  have h := f.le_pagesEnd
  apply List.ext_getElem?
  intro i
  simp only [bytes, put, Bytes.getElem?_resize, Bytes.getElem?_overwrite, Bytes.length_resize,
    List.length_take, List.getElem?_take]
  grind

/-- Writing out changes nothing of the file. -/
@[simp] theorem bytes_writeOut (f : FileContent) (size : Nat) :
    (f.writeOut size).bytes = f.bytes := by
  rw [writeOut]
  split
  · apply List.ext_getElem?
    intro i
    simp only [bytes, Bytes.getElem?_resize, List.getElem?_take]
    grind
  · rfl

@[simp] theorem mapped_length (f : FileContent) : f.mapped f.length = f.bytes := rfl

theorem range_eq_slice (f : FileContent) {start n size : Nat} (h : start + n ≤ size) :
    f.range start n = (f.mapped size).slice start n := by
  apply List.ext_getElem?
  intro i
  simp only [range, mapped, Bytes.slice, Bytes.getElem?_resize, List.getElem?_take,
    List.getElem?_drop]
  grind

end FileContent

end FileMesh
