import ConfigShell.Host.Launch
import ConfigShell.Line.Token
/-!
# Nodes of the command tree

The words of a line lead from node to node: through containers to a command and on to its
parameters, or to a builtin. A word that begins several names leads to an ambiguous node.
-/

namespace ConfigShell

/-- What every node has: its name, the word that led to it, and what completing the word adds
after it. -/
structure Label where
  name : Option Text
  token : Option Line.Token := none
  completion : Text := [0x20]
  deriving Repr, DecidableEq

/-- A directory of the tree and what it offers. -/
structure Container extends Label where
  libexec : Path
  sysconf : Path
  containers : List Text := []
  commands : List Text := []
  files : List (Text × Text) := []
  builtins : List Text := []
  deriving Repr, DecidableEq

/-- A file that can be run, and the directory it runs in. -/
structure Command extends Label where
  executable : Path
  sysconf : Path
  deriving Repr, DecidableEq

/-- What is wrong with a parameter. -/
inductive ParameterFault where
  | noCommand
  | hiddenEquals
  | tooManyCandidates (limit : Nat)
  | notProbed (reason : RunFault)
  /-- A fault that others give the wording of. -/
  | described (message : Text)
  deriving Repr, DecidableEq

/-- The fault with a wording of one's own. -/
def ParameterFault.ofMessage (message : Text) : ParameterFault := .described message

/-- The wording of a fault. -/
def ParameterFault.message : ParameterFault → Text
  | .noCommand => "parameter has no command"
  | .hiddenEquals => "key contains a hidden equals character."
  | .tooManyCandidates limit =>
    "more than " ++ Text.decimal limit ++ " parameters read, not completing."
  | .notProbed reason => reason.message
  | .described message => message

/-- One argument of a command, a value alone or a key and a value, with the candidates that the
command gave for it. -/
structure Parameter extends Label where
  command : Option Command
  key : Option Text := none
  value : Text := []
  keys : List Text := []
  requiredKeys : List Text := []
  values : List Text := []
  isRequired : Bool := false
  fault : Option ParameterFault := none
  /-- What the command wrote to its error stream when asked. -/
  complaint : Text := []
  deriving Repr, DecidableEq

/-- A word that begins several names, and those names. -/
structure Ambiguity extends Label where
  typed : Text := []
  /-- What all the names go on with after the part typed, if there is any name. -/
  common : Option Text := none
  containers : List Text := []
  commands : List Text := []
  builtins : List Text := []
  keys : List Text := []
  requiredKeys : List Text := []
  values : List Text := []
  deriving Repr, DecidableEq

/-- A node. -/
inductive Node where
  | container (c : Container)
  | command (c : Command)
  | parameter (p : Parameter)
  | builtin (b : Label)
  | option (o : Label) (command : Option Command)
  | ambiguous (a : Ambiguity)
  deriving Repr, DecidableEq

/-- The kinds of nodes. -/
inductive NodeKind where
  | container
  | command
  | parameter
  | builtin
  | option
  | ambiguous
  deriving Repr, DecidableEq

namespace Parameter

/-- The two words a parameter is for its command. -/
def pair (p : Parameter) : Text × Text :=
  match p.key with
  | some key => (key, p.value)
  | none => (p.value, [])

/-- The words of several parameters, in order. -/
def words (ps : List Parameter) : List Text := ps.flatMap fun p => [p.pair.1, p.pair.2]

end Parameter

namespace Ambiguity

/-- All the names. -/
def candidates (a : Ambiguity) : List Text :=
  a.builtins ++ a.commands ++ a.containers ++ a.keys ++ a.requiredKeys ++ a.values

end Ambiguity

namespace Node

/-- The label of a node. -/
def label : Node → Label
  | container c => c.toLabel
  | command c => c.toLabel
  | parameter p => p.toLabel
  | builtin b => b
  | option o _ => o
  | ambiguous a => a.toLabel

/-- The name of a node; the top has none. -/
def name (n : Node) : Option Text := n.label.name

/-- The kind of a node. -/
def kind : Node → NodeKind
  | container _ => .container
  | command _ => .command
  | parameter _ => .parameter
  | builtin _ => .builtin
  | option _ _ => .option
  | ambiguous _ => .ambiguous

/-- The parameter a node is, if it is one. -/
def parameter? : Node → Option Parameter
  | parameter p => some p
  | _ => none

/-- The command a node is, if it is one. -/
def command? : Node → Option Command
  | command c => some c
  | _ => none

end Node

end ConfigShell
