/-!
# Digits and numbers

Digits in bases up to sixteen and the numbers made of them. Letters may be of either case.
-/

namespace FileMesh.Text

/-- The value of a digit in a base of at most sixteen. -/
def digit? (base : Nat) (c : Char) : Option Nat :=
  let value :=
    if '0' ≤ c ∧ c ≤ '9' then some (c.toNat - 48)
    else if 'a' ≤ c ∧ c ≤ 'f' then some (c.toNat - 87)
    else if 'A' ≤ c ∧ c ≤ 'F' then some (c.toNat - 55)
    else none
  value.filter (· < base)

def isDigit (base : Nat) (c : Char) : Bool := (digit? base c).isSome

/-- The value of digits, the most significant first. What is no digit counts as zero. -/
def valueOf (base : Nat) (cs : List Char) : Nat :=
  cs.foldl (fun n c => base * n + (digit? base c).getD 0) 0

/-- A decimal number of at least one digit that is at most `largest`, after an optional plus sign.
Leading zeros are allowed. -/
def unsigned? (largest : Nat) (cs : List Char) : Option Nat :=
  let digits := match cs with
    | '+' :: rest => rest
    | _ => cs
  if digits.isEmpty ∨ !digits.all (isDigit 10) ∨ largest < valueOf 10 digits then none
  else some (valueOf 10 digits)

end FileMesh.Text
