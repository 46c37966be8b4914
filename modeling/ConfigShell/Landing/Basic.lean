import ConfigShell.Landing.Node
/-!
# Where a walk stands

A landing is a node together with the nodes above it, so going up is dropping the node.
-/

namespace ConfigShell

/-- A node and the nodes above it, the nearest first. -/
structure Landing where
  node : Node
  above : List Node := []
  deriving Repr, DecidableEq

namespace Landing

/-- The nodes from the top down. -/
def chain (l : Landing) : List Node := (l.node :: l.above).reverse

/-- A walk standing at the last node of a chain. -/
def ofChain (nodes : List Node) : Option Landing :=
  match nodes.reverse with
  | [] => none
  | node :: above => some ⟨node, above⟩

/-- The walk stands at the top. -/
def isTop (l : Landing) : Bool := l.above.isEmpty

/-- One node up. -/
def parent? (l : Landing) : Option Landing :=
  match l.above with
  | [] => none
  | node :: above => some ⟨node, above⟩

/-- One node further down. -/
def enter (l : Landing) (node : Node) : Landing := ⟨node, l.node :: l.above⟩

/-- The names from the top to here; the top itself has none. -/
def path (l : Landing) : List Text := l.chain.filterMap (·.name)

/-- The parameters just below the command down to here. -/
def parameters (l : Landing) : List Parameter :=
  (((l.node :: l.above).takeWhile (·.parameter?.isSome)).filterMap (·.parameter?)).reverse

/-- The command that the parameters here belong to: the nearest node that is no parameter. -/
def command? (l : Landing) : Option Command :=
  ((l.node :: l.above).dropWhile (·.parameter?.isSome)).head?.bind (·.command?)

/-! ## Going down and up -/

@[simp]
theorem ofChain_chain (l : Landing) : ofChain l.chain = some l := by
  simp [ofChain, chain]

@[simp]
theorem chain_enter (l : Landing) (n : Node) : (l.enter n).chain = l.chain ++ [n] := by
  simp [chain, enter]

/-- Going up undoes going down. -/
@[simp]
theorem parent?_enter (l : Landing) (n : Node) : (l.enter n).parent? = some l := rfl

@[simp]
theorem path_enter (l : Landing) (n : Node) : (l.enter n).path = l.path ++ n.name.toList := by
  cases h : n.name <;> simp [path, h]

end Landing

end ConfigShell
