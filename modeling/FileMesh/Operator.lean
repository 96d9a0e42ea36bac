import FileMesh.Node.Download
import FileMesh.Text.Blank

/-!
# Operator commands

An operator types lines. A line is a command after a colon or the name of a file to download; blanks
around it do not count, and a blank line does nothing.
-/

namespace FileMesh

inductive Command where
  | quit
  | list
  | download (name : String)
  | nothing
deriving DecidableEq, Repr

namespace Command

def parse (line : String) : Command :=
  match Text.trim line with
  | "" => nothing
  | ":quit" => quit
  | ":q" => quit
  | ":list" => list
  | name => download name

/-- How a file is listed. -/
def listing (d : Descriptor) : String :=
  d.name ++ " (" ++ toString d.size.toNat ++ " bytes, " ++ d.hash.short ++ ")"

/-- Shows every file that is known. -/
def showCatalog (n : Node) : Node :=
  if n.catalog.isEmpty then n.notify (.system "No files in network")
  else n.catalog.foldl (fun n d => n.notify (.system (listing d))) n

/-- Does what a command asks for; `none` if the node is to stop. -/
def run (disk : Disk) (n : Node) : Command → Option Node
  | nothing => some n
  | quit => none
  | list => some (showCatalog n)
  | download name => some (n.requestDownload disk name).2

end Command

end FileMesh
