import FileMesh.ContentHash

/-!
# Tables keyed by content hash

An open-addressing table. A key is looked for from its home slot on, slot after slot and around the
end, up to the first empty slot. The number of slots is a power of two; it doubles when an accepted
entry would make the table half full. An entry is never replaced, and the zero hash is never a key.
-/

namespace FileMesh

/-- Why an entry is refused: the key is there already, or it is the zero hash, which is no key. -/
inductive TableError where
  | duplicate (hash : ContentHash)
  | reservedHash
deriving DecidableEq, Repr

def TableError.message : TableError → String
  | duplicate hash => "hash " ++ hash.hex ++ " is already present"
  | reservedHash => "the all-zero hash is reserved"

/-- A table from content hashes to `α`, with a power of two of slots and as many entries as `size`
says. -/
structure Table (α : Type) where
  slots : Array (Option (ContentHash × α))
  size : Nat

namespace Table

variable {α : Type}

/-- The number of slots of a new table. -/
def initialCapacity : Nat := 256

/-- A table of `n` empty slots. -/
def withCapacity (n : Nat) : Table α := ⟨Array.replicate n none, 0⟩

def empty : Table α := withCapacity initialCapacity

instance : Inhabited (Table α) := ⟨empty⟩

def capacity (t : Table α) : Nat := t.slots.size

def isEmpty (t : Table α) : Bool := t.size == 0

/-- The content of slot `i`; a slot that does not exist is empty. -/
def slot (slots : Array (Option (ContentHash × α))) (i : Nat) : Option (ContentHash × α) :=
  slots.getD i none

/-- The first slot, of `n` from slot `i` on and around the end, that is empty or holds `key`. -/
def seek (slots : Array (Option (ContentHash × α))) (key : ContentHash) : Nat → Nat → Option Nat
  | 0, _ => none
  | n + 1, i =>
    match slot slots i with
    | none => some i
    | some (k, _) => if k = key then some i else seek slots key n ((i + 1) % slots.size)

/-- The slot where looking for `key` ends. -/
def locate (slots : Array (Option (ContentHash × α))) (key : ContentHash) : Option Nat :=
  seek slots key slots.size (key.home % slots.size)

/-- The slot that holds `key`. -/
def find? (t : Table α) (key : ContentHash) : Option Nat :=
  if key.isZero then none
  else (locate t.slots key).filter fun i => (slot t.slots i).isSome

def get? (t : Table α) (key : ContentHash) : Option α :=
  (t.find? key).bind fun i => (slot t.slots i).map Prod.snd

def contains (t : Table α) (key : ContentHash) : Bool := (t.find? key).isSome

def toList (t : Table α) : List (ContentHash × α) := t.slots.toList.filterMap id

def values (t : Table α) : List α := t.toList.map Prod.snd

/-- Puts an entry into the slot where looking for its key ends. -/
def place (t : Table α) (key : ContentHash) (value : α) : Table α :=
  match locate t.slots key with
  | some i => ⟨t.slots.setIfInBounds i (some (key, value)), t.size + 1⟩
  | none => t

/-- The table with twice the slots, its entries placed anew in slot order. -/
def grow (t : Table α) : Table α :=
  t.toList.foldl (fun t (key, value) => t.place key value) (withCapacity (2 * t.capacity))

/-- Adds an entry. A refused entry leaves the table as it is. -/
def insert (t : Table α) (key : ContentHash) (value : α) : Except TableError (Table α) :=
  if key.isZero then .error .reservedHash
  else if t.contains key then .error (.duplicate key)
  else
    let t := if t.capacity ≤ 2 * (t.size + 1) then t.grow else t
    .ok (t.place key value)

/-- Replaces the value under a key by a function of it; nothing else changes. -/
def modify (t : Table α) (key : ContentHash) (f : α → α) : Table α :=
  match t.find? key with
  | some i => { t with slots := t.slots.modify i fun s => s.map fun (k, v) => (k, f v) }
  | none => t

/-- Replaces every value by a function of it. -/
def map (t : Table α) (f : α → α) : Table α :=
  { t with slots := t.slots.map fun s => s.map fun (k, v) => (k, f v) }

theorem contains_zero (t : Table α) : t.contains .zero = false := by
  simp [contains, find?]

end Table

end FileMesh
