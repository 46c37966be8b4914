import ConfigShell.Line.Position
import ConfigShell.Session.Command
/-!
# Scripts and single commands

The shell without a user: it carries out the lines of a script one after another until one
leaves the session, or a single command given as separate words. A script that comes from a stream
may turn out not to be readable to its end.
-/

namespace ConfigShell.Session

/-- Carries out numbered lines until one ends the session; tells whether all succeeded. Where none
ends it, `atEnd` is what comes of looking for a further line. -/
def runLines (site : Site) (s : Session) (lines : List (Text × Nat))
    (atEnd : Shell Unit := pure ()) : Shell (Bool × Session) :=
  match lines with
  | [] => do
    atEnd
    return (true, s)
  | (line, number) :: rest => do
    match Line.lexFinal line with
    | .error e =>
      Shell.complain (e.report (some number))
      let (_, s) ← runLines site s rest atEnd
      return (false, s)
    | .ok lexed =>
      match ← s.command site lexed (some number) with
      | (.terminate, s) => return (true, s)
      | (.error, s) =>
        let (_, s) ← runLines site s rest atEnd
        return (false, s)
      | (.goOn, s) => runLines site s rest atEnd

/-- Carries out the lines of a script; the exit code is zero if all succeeded. -/
def readLines (site : Site) (s : Session) (lines : List Text) (atEnd : Shell Unit := pure ()) :
    Shell (Nat × Session) := do
  let (succeeded, s) ← s.runLines site (lines.zipIdx 1) atEnd
  return (if succeeded then 0 else 1, s)

/-- Carries out a command given as separate words. A first word that begins with `#` makes it a
comment. -/
def runWords (site : Site) (s : Session) (words : List Text) : Shell (Nat × Session) := do
  if words.head?.any (·.head? == some 0x23) then return (0, s)
  let (outcome, s) ← s.command site (Line.Lexed.ofWords words)
  return (if outcome = .error then 1 else 0, s)

end ConfigShell.Session
