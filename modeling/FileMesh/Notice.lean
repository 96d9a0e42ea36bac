/-!
# Notices

Short texts for the operator, each with the name of who says it.
-/

namespace FileMesh

/-- A text for the operator, and who says it. -/
structure Notice where
  source : String
  text : String
deriving DecidableEq, Repr, Inhabited

namespace Notice

/-- A notice of the node itself. -/
def system (text : String) : Notice := ⟨"system", text⟩

def line (n : Notice) : String := "[" ++ n.source ++ "] " ++ n.text

end Notice

end FileMesh
