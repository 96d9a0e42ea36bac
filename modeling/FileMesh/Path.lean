import FileMesh.Text.Blank

/-!
# Paths

A path is text: parts with separators between them. Empty parts say nothing, and a part `.` says
nothing unless the path begins with it; a part `..` leads to the directory above.
-/

namespace FileMesh.Path

/-- A part of a path. The root stands at the beginning of an absolute path, and the directory itself
only at the beginning of a relative one. -/
inductive Component where
  | root
  | here
  | up
  | name (s : String)
deriving DecidableEq, Repr, Inhabited

/-- The text between separators, without empty pieces. -/
def pieces (path : String) : List String :=
  ((Text.splitOn '/' path.toList).filter fun p => !p.isEmpty).map String.ofList

def isAbsolute (path : String) : Bool := path.toList.head? == some '/'

/-- Whether a path ends in a separator, so that it can only lead to a directory. -/
def endsInSeparator (path : String) : Bool := path.toList.getLast? == some '/'

/-- What a piece stands for inside a path; a dot stands for nothing there. -/
def inner? (piece : String) : Option Component :=
  if piece = "." then none
  else if piece = ".." then some .up
  else some (.name piece)

def components (path : String) : List Component :=
  let parts := (pieces path).filterMap inner?
  if isAbsolute path then .root :: parts
  else if (pieces path).head? = some "." then .here :: parts
  else parts

/-- The name a path ends in: none for the empty path, for the root and after `..`. -/
def fileName? (path : String) : Option String :=
  match (components path).getLast? with
  | some (.name s) => some s
  | _ => none

def Component.text : Component → String
  | root => ""
  | here => "."
  | up => ".."
  | name s => s

/-- The path with these parts. -/
def ofComponents : List Component → String
  | [.root] => "/"
  | parts => "/".intercalate (parts.map Component.text)

/-- The path without its last part: none for the empty path and for the root. -/
def parent? (path : String) : Option String :=
  match components path with
  | [] => none
  | [.root] => none
  | parts => some (ofComponents parts.dropLast)

/-- The path `inner` seen from `base`; an absolute path is the same from everywhere. -/
def join (base inner : String) : String :=
  if isAbsolute inner ∨ base = "" then inner
  else if endsInSeparator base then base ++ inner
  else base ++ "/" ++ inner

end FileMesh.Path
