import ConfigShell.Landing.Basic
import ConfigShell.Text.Quoted
/-!
# The outline of a landing

For tracing, the nodes from the top to where a walk stands are shown one a line, each two
spaces further in than the one above it.
-/

namespace ConfigShell

/-- The name of a kind at the start of a line. -/
def NodeKind.heading : NodeKind → Text
  | .container => "Container"
  | .command => "Command"
  | .parameter => "Parameter"
  | .builtin => "Builtin"
  | .option => "Option"
  | .ambiguous => "Ambiguous"

namespace Outline

/-- The literal of a text that may be missing. -/
def optional : Option Text → Text
  | none => "None"
  | some t => Text.quoted t

/-- A node by its kind and its name; the top is a slash. -/
def heading (n : Node) : Text :=
  n.kind.heading ++ " " ++ match n.name with
    | none => Text.ofString "/"
    | some name => Text.quoted name

/-- A node in one line. -/
def describe (n : Node) : Text :=
  match n with
  | .container c =>
    heading n ++ " libexec=" ++ c.libexec.toText ++ " sysconf=" ++ c.sysconf.toText
  | .command c => heading n ++ " executable=" ++ c.executable.toText
  | .parameter p =>
    n.kind.heading ++ " key=" ++ optional p.key ++ " value=" ++ Text.quoted p.value
      ++ (if p.isRequired then Text.ofString " required" else [])
      ++ match p.fault with
        | none => []
        | some fault => " error=" ++ Text.quoted fault.message
  | .builtin _ => heading n
  | .option _ command => heading n ++ " command=" ++ optional (command.bind (·.name))
  | .ambiguous a =>
    heading n ++ " common=" ++ optional a.common
      ++ " candidates=" ++ Text.quotedList (a.candidates.map Text.quoted)

/-- A line at a depth. -/
def indent (depth : Nat) (line : Text) : Text := List.replicate (2 * depth) 0x20 ++ line

end Outline

/-- The outline of a landing. -/
def Landing.outline (l : Landing) : Text :=
  (l.chain.zipIdx.map fun (n, depth) => Outline.indent depth (Outline.describe n) ++ "\n").flatten

end ConfigShell
