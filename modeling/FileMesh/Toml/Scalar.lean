import FileMesh.Text.Reader
import FileMesh.Toml.Value

/-!
# TOML keys, strings, numbers and dates

Readers for everything but arrays and tables. A beginning that can only be one kind of value is
refused when it is not a whole value of that kind.
-/

namespace FileMesh.Toml

open Text (Reader)
open Text.Reader (char fixedNumber)

/-- Keys of this many parts, and values nested this deep, are refused. -/
def nestingLimit : Nat := 80

/-! ## Blanks, comments and line ends -/

/-- A space or a tab. -/
def isSpace (c : Char) : Bool := c == ' ' || c == '\t'

/-- The text without the spaces at its beginning. -/
def skipSpaces (cs : List Char) : List Char := cs.dropWhile isSpace

/-- A character that may stand in a comment: none that is a control character but a tab. -/
def isCommentChar (c : Char) : Bool := c == '\t' || (' ' ≤ c && c ≤ '~') || 0x80 ≤ c.toNat

/-- What follows a line end. -/
def newline? : List Char → Option (List Char)
  | '\n' :: rest => some rest
  | '\r' :: '\n' :: rest => some rest
  | _ => none

/-- The text without a comment at its beginning. -/
def skipComment : List Char → List Char
  | '#' :: rest => rest.dropWhile isCommentChar
  | cs => cs

/-- What follows the rest of a line that holds spaces and a comment only. -/
def lineEnd? (cs : List Char) : Option (List Char) :=
  match skipComment (skipSpaces cs) with
  | [] => some []
  | rest => newline? rest

/-- The text without spaces, comments and line ends at its beginning; `none` for a comment or a line
end that is malformed. -/
def skipLines? (cs : List Char) : Option (List Char) := go (cs.length + 1) cs
where
  go : Nat → List Char → Option (List Char)
    | 0, cs => some cs
    | n + 1, cs =>
      match skipSpaces cs with
      | '#' :: rest => lineEnd? ('#' :: rest) >>= go n
      | '\n' :: rest => go n rest
      | '\r' :: rest => newline? ('\r' :: rest) >>= go n
      | rest => some rest

/-! ## Strings -/

/-- A character that may stand for itself between quotes of this kind. -/
def isPlain (quote c : Char) : Bool :=
  isCommentChar c && c != quote && (quote == '\'' || c != '\\')

/-- The character with the code point of exactly `n` hexadecimal digits. -/
def codePoint (n : Nat) : Reader Char := fun cs =>
  let digits := cs.take n
  let value := Text.valueOf 16 digits
  if digits.length = n ∧ digits.all (Text.isDigit 16) ∧ value.isValidChar then
    some (Char.ofNat value, cs.drop n)
  else none

/-- What follows a backslash. -/
def escape : Reader Char
  | 'b' :: rest => some ('\x08', rest)
  | 't' :: rest => some ('\t', rest)
  | 'n' :: rest => some ('\n', rest)
  | 'f' :: rest => some ('\x0c', rest)
  | 'r' :: rest => some ('\r', rest)
  | '"' :: rest => some ('"', rest)
  | '\\' :: rest => some ('\\', rest)
  | 'u' :: rest => codePoint 4 rest
  | 'U' :: rest => codePoint 8 rest
  | _ => none

/-- The rest of a string on one line, after its opening quote. -/
def lineString (quote : Char) : Reader String := fun cs => go (cs.length + 1) [] cs
where
  go : Nat → List Char → List Char → Option (String × List Char)
    | 0, _, _ => none
    | _ + 1, _, [] => none
    | n + 1, acc, c :: rest =>
      if c = quote then some (String.ofList acc.reverse, rest)
      else if c = '\\' ∧ quote = '"' then
        escape rest >>= fun (e, rest) => go n (e :: acc) rest
      else if isPlain quote c then go n (c :: acc) rest
      else none

/-- What follows a backslash that ends its line: the text without the blanks and line ends after
it. -/
def continuation? (cs : List Char) : Option (List Char) :=
  newline? (skipSpaces cs) >>= fun rest =>
    go (rest.length + 1) rest
where
  go : Nat → List Char → Option (List Char)
    | 0, cs => some cs
    | n + 1, cs =>
      match newline? (skipSpaces cs) with
      | some rest => go n rest
      | none => some (skipSpaces cs)

/-- The rest of a string over several lines, after its three opening quotes. One or two quotes are
part of the text, also right before the three closing ones. Line ends read as line feeds. -/
def blockString (quote : Char) : Reader String := fun cs =>
  let cs := (newline? cs).getD cs
  go (cs.length + 1) [] cs
where
  go : Nat → List Char → List Char → Option (String × List Char)
    | 0, _, _ => none
    | _ + 1, _, [] => none
    | n + 1, acc, c :: rest =>
      if c = quote then
        let run := ((c :: rest).takeWhile (· == quote)).length
        if 3 ≤ run then
          let extra := min (run - 3) 2
          some (String.ofList (List.replicate extra quote ++ acc).reverse,
            (c :: rest).drop (3 + extra))
        else go n (c :: acc) rest
      else if c = '\\' ∧ quote = '"' then
        match continuation? rest with
        | some rest => go n acc rest
        | none => escape rest >>= fun (e, rest) => go n (e :: acc) rest
      else if isPlain quote c then go n (c :: acc) rest
      else newline? (c :: rest) >>= go n ('\n' :: acc)

/-- A string in one of the four quotings. -/
def text : Reader String
  | '"' :: '"' :: '"' :: rest => blockString '"' rest
  | '"' :: rest => lineString '"' rest
  | '\'' :: '\'' :: '\'' :: rest => blockString '\'' rest
  | '\'' :: rest => lineString '\'' rest
  | _ => none

/-! ## Keys -/

/-- A character of a key without quotes. -/
def isBareKeyChar (c : Char) : Bool := c.isAlphanum || c == '-' || c == '_'

/-- One part of a key. -/
def simpleKey : Reader String
  | '"' :: rest => lineString '"' rest
  | '\'' :: rest => lineString '\'' rest
  | cs =>
    let key := cs.takeWhile isBareKeyChar
    if key.isEmpty then none else some (String.ofList key, cs.drop key.length)

/-- A key: parts with points between them, and spaces around each part. -/
def keyPath : Reader (List String) := fun cs => do
  let (path, rest) ← go (cs.length + 1) cs
  if path.length < nestingLimit then some (path, rest) else none
where
  go : Nat → List Char → Option (List String × List Char)
    | 0, _ => none
    | n + 1, cs => do
      let (key, rest) ← simpleKey (skipSpaces cs)
      match skipSpaces rest with
      | '.' :: rest =>
        let (path, rest) ← go n rest
        some (key :: path, rest)
      | rest => some ([key], rest)

/-! ## Dates and times -/

/-- The number of days of a month. -/
def daysIn (year month : Nat) : Nat :=
  if month = 2 then
    if year % 4 = 0 ∧ (year % 100 ≠ 0 ∨ year % 400 = 0) then 29 else 28
  else if month = 4 ∨ month = 6 ∨ month = 9 ∨ month = 11 then 30
  else 31

/-- Whether the text can only be a date: four digits and a hyphen. -/
def startsDate (cs : List Char) : Bool :=
  (fixedNumber 4 0 9999 cs >>= fun (_, cs) => char '-' cs).isSome

/-- Whether the text can only be a time: an hour and a colon. -/
def startsTime (cs : List Char) : Bool :=
  (fixedNumber 2 0 23 cs >>= fun (_, cs) => char ':' cs).isSome

/-- What follows a date. -/
def date? (cs : List Char) : Option (List Char) := do
  let (year, cs) ← fixedNumber 4 0 9999 cs
  let (_, cs) ← char '-' cs
  let (month, cs) ← fixedNumber 2 1 12 cs
  let (_, cs) ← char '-' cs
  let (_, cs) ← fixedNumber 2 1 (daysIn year month) cs
  some cs

/-- What follows a time of day. -/
def time? (cs : List Char) : Option (List Char) := do
  let (_, cs) ← fixedNumber 2 0 23 cs
  let (_, cs) ← char ':' cs
  let (_, cs) ← fixedNumber 2 0 59 cs
  let (_, cs) ← char ':' cs
  let (_, cs) ← fixedNumber 2 0 60 cs
  match cs with
  | '.' :: rest => if startsDigit rest then some (rest.dropWhile Char.isDigit) else some cs
  | _ => some cs
where
  startsDigit : List Char → Bool
    | c :: _ => c.isDigit
    | [] => false

/-- What follows an optional offset from universal time. -/
def offset? (cs : List Char) : Option (List Char) :=
  match cs with
  | 'Z' :: rest => some rest
  | 'z' :: rest => some rest
  | '+' :: rest => span? rest
  | '-' :: rest => span? rest
  | _ => some cs
where
  span? (cs : List Char) : Option (List Char) := do
    let (_, cs) ← fixedNumber 2 0 23 cs
    let (_, cs) ← char ':' cs
    let (_, cs) ← fixedNumber 2 0 59 cs
    some cs

/-- What follows a date with an optional time and offset, or a time. -/
def datetime? (cs : List Char) : Option (List Char) :=
  if startsDate cs then date? cs >>= fun rest =>
    match rest with
    | c :: after =>
      if (c = 'T' ∨ c = 't' ∨ c = ' ') ∧ startsTime after then time? after >>= offset?
      else some rest
    | [] => some []
  else time? cs

/-! ## Numbers -/

/-- Digits with single underscores between them, at least one digit. -/
def digitRun (isDigit : Char → Bool) : Reader (List Char) := fun cs => go (cs.length + 1) [] cs
where
  go : Nat → List Char → List Char → Option (List Char × List Char)
    | 0, _, _ => none
    | n + 1, acc, cs =>
      match cs with
      | '_' :: c :: rest =>
        if isDigit c ∧ !acc.isEmpty then go n (c :: acc) rest else none
      | ['_'] => none
      | c :: rest =>
        if isDigit c then go n (c :: acc) rest
        else if acc.isEmpty then none else some (acc.reverse, cs)
      | [] => if acc.isEmpty then none else some (acc.reverse, [])

/-- A decimal integer part: a single zero, or digits that do not begin with one. -/
def decimalPart : Reader (List Char)
  | '0' :: rest => some (['0'], rest)
  | cs => digitRun Char.isDigit cs

/-- The integers of 64 bits. -/
def integer? (n : Int) : Option Value :=
  if -0x8000000000000000 ≤ n ∧ n < 0x8000000000000000 then some (.integer n) else none

/-- An integer after the two characters that give its base. -/
def based (base : Nat) : Reader Value := fun cs => do
  let (ds, rest) ← digitRun (Text.isDigit base) cs
  let value ← integer? (Text.valueOf base ds)
  some (value, rest)

/-- The least number that rounds to infinity in 64 bits. -/
def floatLimit : Nat := (1 <<< 1024) - (1 <<< 970)

/-- Whether `mantissa * 10 ^ exponent` rounds to infinity in 64 bits. -/
def overflows (mantissa : Nat) (exponent : Int) : Bool :=
  let magnitude : Int := (Nat.toDigits 10 mantissa).length + exponent
  if mantissa = 0 ∨ magnitude < 309 then false
  else if 310 < magnitude then true
  else if 0 ≤ exponent then floatLimit ≤ mantissa * Nat.pow 10 exponent.toNat
  else floatLimit * Nat.pow 10 (-exponent).toNat ≤ mantissa

/-- An optional sign; the flag says that it is a minus sign. -/
def sign : List Char → Bool × List Char
  | '-' :: rest => (true, rest)
  | '+' :: rest => (false, rest)
  | cs => (false, cs)

/-- The exponent of a number, after its letter. -/
def exponent : Reader Int := fun cs => do
  let (negative, cs) := sign cs
  let (ds, rest) ← digitRun Char.isDigit cs
  let value : Int := Text.valueOf 10 ds
  some (if negative then -value else value, rest)

/-- A decimal number: an integer, or a floating-point number when a fraction or an exponent follows.
A positive number too large for 64 bits is refused. -/
def decimal : Reader Value := fun cs => do
  let (negative, unsigned) := sign cs
  let (whole, rest) ← decimalPart unsigned
  let (fraction, afterFraction) ← match rest with
    | '.' :: rest => (digitRun Char.isDigit rest).map fun (ds, rest) => (some ds, rest)
    | _ => some (none, rest)
  let (power, rest) ← match afterFraction with
    | 'e' :: rest => (exponent rest).map fun (e, rest) => (some e, rest)
    | 'E' :: rest => (exponent rest).map fun (e, rest) => (some e, rest)
    | _ => some (none, afterFraction)
  if fraction.isNone ∧ power.isNone then
    let n : Int := Text.valueOf 10 whole
    let value ← integer? (if negative then -n else n)
    some (value, rest)
  else
    let ds := fraction.getD []
    if !negative ∧ overflows (Text.valueOf 10 (whole ++ ds)) (power.getD 0 - ds.length) then none
    else some (.float (String.ofList (cs.take (cs.length - rest.length))), rest)

/-- A date, a time or a number. -/
def numeric : Reader Value := fun cs =>
  if startsDate cs ∨ startsTime cs then
    (datetime? cs).map fun rest =>
      (.datetime (String.ofList (cs.take (cs.length - rest.length))), rest)
  else
    match cs with
    | '0' :: 'x' :: rest => based 16 rest
    | '0' :: 'o' :: rest => based 8 rest
    | '0' :: 'b' :: rest => based 2 rest
    | _ =>
      match (sign cs).2 with
      | 'i' :: 'n' :: 'f' :: rest => some (.float (if (sign cs).1 then "-inf" else "inf"), rest)
      | 'n' :: 'a' :: 'n' :: rest => some (.float "nan", rest)
      | _ => decimal cs

end FileMesh.Toml
