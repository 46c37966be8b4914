import ConfigShell.Landing.Node
/-!
# Arenas

The nodes made for one line can be kept together and let go of together. Once an arena has been
released it stays empty.
-/

namespace ConfigShell

/-- The nodes made for one line. -/
structure Arena where
  nodes : List Node := []
  isReleased : Bool := false
  deriving Repr, DecidableEq

/-- Why an arena takes no node. -/
inductive ArenaFault where
  | released
  deriving Repr, DecidableEq

/-- The wording of a fault. -/
def ArenaFault.message : ArenaFault → Text
  | .released => "parse tree already released"

namespace Arena

/-- Adds a node, unless the arena has been released. -/
def add (a : Arena) (n : Node) : Except ArenaFault Arena :=
  if a.isReleased then .error .released else .ok { a with nodes := a.nodes ++ [n] }

/-- Lets go of all nodes. -/
def release (_ : Arena) : Arena := { nodes := [], isReleased := true }

end Arena

end ConfigShell
