/-!
# TOML values

The values a TOML document can hold, and the lines it is made of: headers and assignments. A table
remembers how it came about, because that decides whether later lines may add to it.
-/

namespace FileMesh.Toml

/-- How a table came about. Nothing can be added to one in braces. One that is only implied, as a
parent in a longer header, may get a header of its own, and to a parent in a dotted key only dotted
keys add. -/
inductive Opening where
  | braces
  | header
  | implied
  | dotted
deriving DecidableEq, Repr, Inhabited

/-- A value. A floating-point number, a date or a time is kept as it is written, and a table with
how it came about. -/
inductive Value where
  | string (text : String)
  | integer (n : Int)
  | float (text : String)
  | boolean (b : Bool)
  | datetime (text : String)
  | array (items : List Value)
  | table (opening : Opening) (entries : List (String × Value))
  | tables (items : List (List (String × Value)))
deriving Repr, Inhabited

/-- A line of a document that says something: the header of a table, the header of one more table of
an array, or an assignment, with the keys before the last one, the last one and the value. -/
inductive Statement where
  | header (path : List String)
  | arrayHeader (path : List String)
  | assign (parents : List String) (key : String) (value : Value)
deriving Repr, Inhabited

end FileMesh.Toml
