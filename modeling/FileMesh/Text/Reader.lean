import FileMesh.Text.Number

/-!
# Readers

A reader takes a beginning of the text and gives the rest, or refuses.
-/

namespace FileMesh.Text

/-- A reader of `α`. -/
abbrev Reader (α : Type) := List Char → Option (α × List Char)

namespace Reader

/-- One given character. -/
def char (c : Char) : Reader Unit
  | d :: rest => if d = c then some ((), rest) else none
  | [] => none

/-- All digits at the beginning, at least one, with the value at most `largest`. -/
def number (base largest : Nat) : Reader Nat := fun cs =>
  let digits := cs.takeWhile (isDigit base)
  let value := valueOf base digits
  if digits.isEmpty || largest < value then none else some (value, cs.drop digits.length)

/-- Like `number`, but there may be no more than `most` digits. -/
def shortNumber (base most largest : Nat) : Reader Nat := fun cs =>
  if most < (cs.takeWhile (isDigit base)).length then none else number base largest cs

/-- A number of exactly `n` decimal digits between `least` and `most`. -/
def fixedNumber (n least most : Nat) : Reader Nat := fun cs =>
  let ds := cs.take n
  let value := valueOf 10 ds
  if ds.length = n ∧ ds.all (isDigit 10) ∧ least ≤ value ∧ value ≤ most then some (value, cs.drop n)
  else none

/-- What a reader makes of a whole text. -/
def whole {α : Type} (r : Reader α) (s : String) : Option α :=
  match r s.toList with
  | some (a, []) => some a
  | _ => none

end Reader

end FileMesh.Text
