import FileMesh.Text.Number

/-!
# Byte sequences

Everything that is hashed, framed or stored is a list of bytes. A word of `w` bytes is written in
two orders; reading a word back gives its value modulo `256 ^ w`, so wrapping is visible in the
statements and not hidden in a type.
-/

namespace FileMesh

/-- A finite sequence of bytes. -/
abbrev Bytes := List UInt8

namespace Bytes

def zeros (n : Nat) : Bytes := List.replicate n 0

/-- The low `w` bytes of `n`, least significant first. -/
def ofNatLE : Nat → Nat → Bytes
  | 0, _ => []
  | w + 1, n => UInt8.ofNat (n % 256) :: ofNatLE w (n / 256)

/-- The low `w` bytes of `n`, most significant first. -/
def ofNatBE (w n : Nat) : Bytes := (ofNatLE w n).reverse

/-- The value of a byte sequence, least significant byte first. -/
def toNatLE : Bytes → Nat
  | [] => 0
  | b :: rest => b.toNat + 256 * toNatLE rest

/-- The value of a byte sequence, most significant byte first. -/
def toNatBE (b : Bytes) : Nat := b.foldl (fun n x => 256 * n + x.toNat) 0

@[simp] theorem length_zeros (n : Nat) : (zeros n).length = n := List.length_replicate

@[simp] theorem length_ofNatLE (w n : Nat) : (ofNatLE w n).length = w := by
  induction w generalizing n with
  | zero => rfl
  | succ w ih => simp [ofNatLE, ih]

@[simp] theorem length_ofNatBE (w n : Nat) : (ofNatBE w n).length = w := by
  simp [ofNatBE]

/-- At most `length` bytes from `start` on. -/
def slice (b : Bytes) (start length : Nat) : Bytes := (b.drop start).take length

/-- `b` with `data` in place of the bytes from `start` on; nothing grows, so what would lie past
the end of `b` is dropped. -/
def overwrite (b : Bytes) (start : Nat) (data : Bytes) : Bytes :=
  b.take start ++ (data.take (b.length - start) ++ b.drop (start + data.length))

/-- `b` cut to `n` bytes, or extended to `n` bytes by zeros. -/
def resize (b : Bytes) (n : Nat) : Bytes := b.take n ++ zeros (n - b.length)

@[simp] theorem length_resize (b : Bytes) (n : Nat) : (b.resize n).length = n := by
  simp only [resize, List.length_append, List.length_take, length_zeros]
  omega

@[simp] theorem resize_length (b : Bytes) : b.resize b.length = b := by
  simp [resize, zeros]

@[simp] theorem resize_nil (n : Nat) : resize [] n = zeros n := by
  simp [resize]

theorem getElem?_resize (b : Bytes) (n i : Nat) :
    (b.resize n)[i]? = if i < n then some (b[i]?.getD 0) else none := by
  simp only [resize, zeros, List.getElem?_append, List.getElem?_take, List.getElem?_replicate,
    List.length_take]
  grind

theorem getElem?_overwrite (b : Bytes) (start i : Nat) (data : Bytes) :
    (b.overwrite start data)[i]? =
      if start ≤ i ∧ i < start + data.length ∧ i < b.length then data[i - start]? else b[i]? := by
  simp only [overwrite, List.getElem?_append, List.getElem?_take, List.getElem?_drop,
    List.length_take]
  grind

/-- The hexadecimal digit of a value below sixteen. -/
def hexDigit (n : Nat) : Char :=
  if n < 10 then Char.ofNat (48 + n) else Char.ofNat (87 + n)

/-- Two lower-case hexadecimal digits a byte. -/
def hex (b : Bytes) : String :=
  String.ofList (b.flatMap fun x => [hexDigit (x.toNat / 16), hexDigit (x.toNat % 16)])

/-- Reads pairs of hexadecimal digits; `none` if anything else is met or a digit is left over. -/
def ofHexDigits? (cs : List Char) : Option Bytes := go cs []
where
  go : List Char → Bytes → Option Bytes
    | [], acc => some acc.reverse
    | [_], _ => none
    | h :: l :: rest, acc =>
      match Text.digit? 16 h, Text.digit? 16 l with
      | some h, some l => go rest (UInt8.ofNat (16 * h + l) :: acc)
      | _, _ => none

def ofHex? (s : String) : Option Bytes := ofHexDigits? s.toList

end Bytes

end FileMesh
