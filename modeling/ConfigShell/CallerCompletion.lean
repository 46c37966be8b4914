import ConfigShell.Session.Walk
import ConfigShell.CommandTree
import ConfigShell.Text.Digit
/-!
# Completion for the calling shell

A login shell that completes a command line for its user hands over the line and the place of
the cursor in variables, and reads the candidates from the output stream, one a line.
-/

namespace ConfigShell

namespace CallerCompletion

/-- The line to complete, cut at the cursor, if there is one. The cursor is given as a number of
characters; what is not made of digits is no cursor. -/
def line? (environment : List (Text × Text)) : Except Text.NumeralFault (Option Text) :=
  match (valueOf? environment "COMP_LINE").or (valueOf? environment "COMMAND_LINE") with
  | none => .ok none
  | some line =>
    match valueOf? environment "COMP_POINT" with
    | none => .ok (some line)
    | some point =>
      if Text.isDigits point then
        (Text.numeral point).map fun n => some (Text.takeCharacters n line)
      else .ok (some line)

/-- The names that may come next; builtins mean nothing to the calling shell. -/
def names (n : Node) : List Text :=
  match n with
  | .ambiguous a => a.containers ++ a.commands
  | _ => n.name.toList

end CallerCompletion

namespace Shell

/-- Writes texts of the shell itself to the output stream, each on a line of its own. -/
def writeLines (setup : Setup) (lines : List Text) : Shell Unit :=
  lines.forM fun line => write setup (line ++ [Text.newline])

end Shell

namespace Session

/-- The names that may complete `line`, whose first word is the name of the program. -/
def namesForCaller (site : Site) (s : Session) (line : Text) : Shell (List Text) := do
  match Line.lex line with
  | .error _ => return []
  | .ok lexed =>
    match lexed.tokens with
    | [] => return []
    | _ :: tokens =>
      match ← s.complete site { lexed with tokens := tokens } with
      | .ok { landing := some l, .. } => return CallerCompletion.names l.node
      | _ => return []

/-- Prints them. -/
def completeForCaller (site : Site) (s : Session) (line : Text) : Shell Unit := do
  Shell.writeLines site.host.setup (← s.namesForCaller site line)

end Session

end ConfigShell
