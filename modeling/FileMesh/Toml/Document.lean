import FileMesh.Toml.Scalar

/-!
# TOML documents

A document is read in two steps: its lines become statements, and the statements, one after the
other, build the table they describe. No key is assigned twice, no table has two headers, and a
table that is complete cannot be added to.
-/

namespace FileMesh.Toml

open Text (Reader)
open Text.Reader (char)

/-- The entries of a table. -/
abbrev Entries := List (String × Value)

/-! ## Building tables -/

/-- `entries` with `value` under `key`. -/
def store (entries : Entries) (key : String) (value : Value) : Entries :=
  match entries with
  | [] => [(key, value)]
  | (k, v) :: rest => if k = key then (k, value) :: rest else (k, v) :: store rest key value

/-- Replaces the last element of a list by a function of it. -/
def changeLast {α : Type} (f : α → Option α) : List α → Option (List α)
  | [] => none
  | [a] => (f a).map ([·])
  | a :: rest => (changeLast f rest).map (a :: ·)

/-- Changes the table at the end of a path; `opening` is how tables on the way come about when they
are missing. A dotted path does not lead through tables that have a header. -/
def change (opening : Opening) (f : Opening → Entries → Option Entries) :
    List String → Opening → Entries → Option Entries
  | [], here, entries => f here entries
  | key :: path, _, entries =>
    match entries.lookup key with
    | none => (change opening f path opening []).map fun t => store entries key (.table opening t)
    | some (.table .braces _) => none
    | some (.table o t) =>
      if opening = .dotted ∧ o = .header then none
      else (change opening f path o t).map fun t => store entries key (.table o t)
    | some (.tables ts) =>
      (changeLast (change opening f path .header) ts).map fun ts => store entries key (.tables ts)
    | some _ => none

/-- Assigns a value below a table. The table that takes it has come about by dotted keys exactly if
the key is dotted. -/
def assign (parents : List String) (key : String) (value : Value) (here : Opening)
    (entries : Entries) : Option Entries :=
  change .dotted (fun o t =>
    if (o = .dotted) = (parents = []) ∨ (t.lookup key).isSome then none
    else some (store t key value)) parents here entries

/-- Opens the table of a header. -/
def openTable (path : List String) (entries : Entries) : Option Entries :=
  match path.getLast? with
  | none => none
  | some key =>
    change .implied (fun _ t =>
      match t.lookup key with
      | none => some (store t key (.table .header []))
      | some (.table .implied u) => some (store t key (.table .header u))
      | some _ => none) path.dropLast .header entries

/-- Opens one more table of an array. -/
def openArrayTable (path : List String) (entries : Entries) : Option Entries :=
  match path.getLast? with
  | none => none
  | some key =>
    change .implied (fun _ t =>
      match t.lookup key with
      | none => some (store t key (.tables [[]]))
      | some (.tables ts) => some (store t key (.tables (ts ++ [[]])))
      | some _ => none) path.dropLast .header entries

/-- What is built so far: all tables, and the path of the open one, to which assignments go. -/
structure Building where
  root : Entries
  current : List String
deriving Repr, Inhabited

/-- What a statement adds. -/
def Statement.apply (b : Building) : Statement → Option Building
  | header path => (openTable path b.root).map (⟨·, path⟩)
  | arrayHeader path => (openArrayTable path b.root).map (⟨·, path⟩)
  | assign parents key value =>
    (change .implied (Toml.assign parents key value) b.current .header b.root).map
      (⟨·, b.current⟩)

/-! ## Values -/

/-- A key, an equals sign and a value. -/
def assignment (value : Reader Value) : Reader Statement := fun cs => do
  let (path, cs) ← keyPath cs
  let (_, cs) ← char '=' cs
  let (v, cs) ← value (skipSpaces cs)
  let key ← path.getLast?
  some (.assign path.dropLast key v, cs)

/-- The rest of an array, after its opening bracket. -/
def items (value : Reader Value) : Reader (List Value) := fun cs => go (cs.length + 1) [] cs
where
  go : Nat → List Value → List Char → Option (List Value × List Char)
    | 0, _, _ => none
    | n + 1, acc, cs => do
      match ← skipLines? cs with
      | ']' :: rest => some (acc.reverse, rest)
      | cs =>
        let (v, cs) ← value cs
        match ← skipLines? cs with
        | ',' :: rest => go n (v :: acc) rest
        | ']' :: rest => some ((v :: acc).reverse, rest)
        | _ => none

/-- The rest of a table in braces, after its opening brace. -/
def fields (value : Reader Value) : Reader Entries := fun cs =>
  match skipSpaces cs with
  | '}' :: rest => some ([], rest)
  | _ => go (cs.length + 1) [] cs
where
  go : Nat → Entries → List Char → Option (Entries × List Char)
    | 0, _, _ => none
    | n + 1, entries, cs => do
      let (statement, cs) ← assignment value cs
      let b ← statement.apply ⟨entries, []⟩
      match skipSpaces cs with
      | ',' :: rest => go n b.root rest
      | '}' :: rest => some (b.root, rest)
      | _ => none

/-- A value with fewer than `depth` arrays and tables around any of its parts. -/
def value (depth : Nat) : Reader Value := fun cs =>
  match cs with
  | '[' :: rest =>
    match depth with
    | 0 => none
    | depth + 1 => (items (value depth) rest).map fun (vs, cs) => (.array vs, cs)
  | '{' :: rest =>
    match depth with
    | 0 => none
    | depth + 1 => (fields (value depth) rest).map fun (es, cs) => (.table .braces es, cs)
  | 't' :: 'r' :: 'u' :: 'e' :: rest => some (.boolean true, rest)
  | 'f' :: 'a' :: 'l' :: 's' :: 'e' :: rest => some (.boolean false, rest)
  | '"' :: _ => (text cs).map fun (s, cs) => (.string s, cs)
  | '\'' :: _ => (text cs).map fun (s, cs) => (.string s, cs)
  | _ => numeric cs

/-! ## Documents -/

/-- The header of a table or of a table of an array. -/
def headerLine : Reader Statement
  | '[' :: '[' :: rest => do
    let (path, cs) ← keyPath rest
    let (_, cs) ← char ']' cs
    let (_, cs) ← char ']' cs
    some (.arrayHeader path, cs)
  | '[' :: rest => do
    let (path, cs) ← keyPath rest
    let (_, cs) ← char ']' cs
    some (.header path, cs)
  | _ => none

/-- The statements of a document, line by line. -/
def statements (cs : List Char) : Option (List Statement) := go (cs.length + 1) [] cs
where
  go : Nat → List Statement → List Char → Option (List Statement)
    | 0, _, _ => none
    | n + 1, acc, cs => do
      match ← skipLines? cs with
      | [] => some acc.reverse
      | cs =>
        let (statement, cs) ← headerLine cs |>.or (assignment (value (nestingLimit - 1)) cs)
        go n (statement :: acc) (← lineEnd? cs)

/-- The table that a document describes. A byte order mark at the beginning is no part of it. -/
def parse? (document : String) : Option Entries := do
  let cs := match document.toList with
    | '\uFEFF' :: rest => rest
    | cs => cs
  let b ← (← statements cs).foldlM Statement.apply ⟨[], []⟩
  some b.root

end FileMesh.Toml
