import FileMesh.Bytes

/-!
# UTF-8 text in byte sequences

A name travels as UTF-8. Decoding either gives the one string with these bytes or tells how long the
well-formed beginning is. To show bytes that may be no text, every broken sequence among them is
replaced by one replacement character. A broken sequence is the longest beginning of a character
that stands there, or else a single byte.
-/

namespace FileMesh.Utf8

/-- The UTF-8 bytes of a string. -/
def encode (s : String) : Bytes := s.toByteArray.data.toList

/-- Where the first ill-formed sequence of `b` at or after position `i` begins. -/
def validUpTo (b : ByteArray) (i : Nat) : Nat :=
  match _ : b.utf8DecodeChar? i with
  | none => i
  | some c => validUpTo b (i + c.utf8Size)
termination_by b.size - i
decreasing_by
  have := ByteArray.le_size_of_utf8DecodeChar?_eq_some ‹b.utf8DecodeChar? i = some c›
  have := c.utf8Size_pos
  omega

/-- The string with these UTF-8 bytes, or the length of the well-formed beginning. -/
def decode (b : Bytes) : Except Nat String :=
  let array : ByteArray := ⟨b.toArray⟩
  match String.fromUTF8? array with
  | some s => .ok s
  | none => .error (validUpTo array 0)

/-! ## Broken sequences -/

/-- The character at the beginning of a byte sequence, if one stands there. -/
def first? (b : Bytes) : Option Char := (⟨(b.take 4).toArray⟩ : ByteArray).utf8DecodeChar? 0

/-- How many bytes follow a first byte; none if no character of several bytes begins with it. -/
def followers (lead : UInt8) : Nat :=
  if lead < 0xC2 then 0
  else if lead < 0xE0 then 1
  else if lead < 0xF0 then 2
  else if lead < 0xF5 then 3
  else 0

/-- Whether a byte is one of those after the first. -/
def isFollower (b : UInt8) : Bool := 0x80 ≤ b && b ≤ 0xBF

/-- Whether a byte can be the second after a first one: the character is then no longer than it need
be, no surrogate and not above the last. -/
def isSecond (lead b : UInt8) : Bool :=
  isFollower b &&
    if lead = 0xE0 then 0xA0 ≤ b
    else if lead = 0xED then b ≤ 0x9F
    else if lead = 0xF0 then 0x90 ≤ b
    else if lead = 0xF4 then b ≤ 0x8F
    else true

/-- How many of the bytes after `lead` belong to the broken sequence that begins with it. -/
def brokenLength (lead : UInt8) (rest : Bytes) : Nat :=
  match rest.take (followers lead) with
  | [] => 0
  | second :: more => if isSecond lead second then 1 + (more.takeWhile isFollower).length else 0

/-- The characters of a byte sequence, with a replacement character for every broken sequence. -/
def characters : Bytes → List Char
  | [] => []
  | lead :: rest =>
    match first? (lead :: rest) with
    | some c => c :: characters (rest.drop (c.utf8Size - 1))
    | none => '\uFFFD' :: characters (rest.drop (brokenLength lead rest))
termination_by b => b.length
decreasing_by all_goals simp only [List.length_cons, List.length_drop]; omega

/-- The string with these UTF-8 bytes; every broken sequence is replaced. -/
def decodeReplacing (b : Bytes) : String :=
  match decode b with
  | .ok s => s
  | .error _ => .ofList (characters b)

/-! ## Laws -/

theorem decode_encode (s : String) : decode (encode s) = .ok s := by
  have h : (⟨s.toByteArray.data.toList.toArray⟩ : ByteArray) = s.toByteArray := by simp
  simp only [decode, encode, h, String.fromUTF8?, String.isValidUTF8, ↓reduceDIte]
  rfl

theorem encode_of_decode {b : Bytes} {s : String} (h : decode b = .ok s) : encode s = b := by
  simp only [decode, String.fromUTF8?] at h
  split at h
  · rename_i t ht
    split at ht
    · cases ht
      cases h
      simp [encode, String.fromUTF8]
    · cases ht
  · cases h

theorem decodeReplacing_encode (s : String) : decodeReplacing (encode s) = s := by
  rw [decodeReplacing, decode_encode]

theorem length_encode (s : String) : (encode s).length = s.utf8ByteSize := by
  simp [encode]

end FileMesh.Utf8
