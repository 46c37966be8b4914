import ConfigShell.Execution
import ConfigShell.Landing.Outline
import ConfigShell.Session.Walk
/-!
# What a line does

A line that leads to a container moves the session there; one that leads to a command or its
parameters executes it; the builtins of the top end the session. All else is an error, reported
on the error stream, and leaves the session where it was.
-/

namespace ConfigShell

/-- What becomes of the session after a line. -/
inductive Outcome where
  | goOn
  | terminate
  | error
  deriving Repr, DecidableEq

namespace Landing

/-- The walk has taken a builtin of the top that ends the session. -/
def endsSession (l : Landing) : Bool :=
  match l.chain with
  | first :: .builtin b :: _ =>
    first.kind != .builtin && b.name.any rootBuiltins.contains
  | _ => false

end Landing

namespace Shell

/-- Writes a message to the error stream, a stray byte spelt out. -/
def complain (message : Text) : Shell Unit :=
  printError (Text.spellStrays message ++ "\n")

end Shell

namespace Session

/-- The source to show with an error, if there is one. -/
def shownSource (lexed : Line.Lexed) : Option Text :=
  if lexed.source.isEmpty then none else some lexed.source

/-- Reports a word that leads nowhere. -/
def complainOfWord (lexed : Line.Lexed) (number : Option Int) (e : WordError) : Shell Unit :=
  Shell.complain (e.report number (shownSource lexed))

/-- The refusal of an ambiguous word. -/
def ambiguityError (a : Ambiguity) : WordError := ⟨a.typed, a.token, .ambiguous a.candidates⟩

/-- Acts on where a line has led. -/
def dispatch (site : Site) (s : Session) (l : Landing) (lexed : Line.Lexed)
    (number : Option Int) : Shell (Outcome × Session) := do
  match l.node with
  | .container _ => return (.goOn, { s with path := l.path })
  | .command _ | .parameter _ =>
    match ← Execution.run site.host site.tree.environment l with
    | .ok () => return (.goOn, s)
    | .error fault =>
      Shell.complain fault.report
      return (.error, s)
  | .builtin _ | .option _ _ => return (if l.endsSession then .terminate else .goOn, s)
  | .ambiguous a =>
    complainOfWord lexed number (ambiguityError a)
    return (.error, s)

/-- Carries out a line, which has the given number if it is one of several. -/
def command (site : Site) (s : Session) (lexed : Line.Lexed) (number : Option Int := none) :
    Shell (Outcome × Session) := do
  if lexed.isEmpty then return (.goOn, s)
  match ← s.resolve site lexed true with
  | .error (.stalePath name) =>
    Shell.complain (stalePathMessage name)
    return (.error, s)
  | .error (.word e) =>
    complainOfWord lexed number e
    return (.error, s)
  | .ok { landing := none, .. } => return (.goOn, s)
  | .ok { landing := some l, .. } =>
    if s.isTracing then Shell.printError (Text.spellStrays l.outline)
    s.dispatch site l lexed number

end Session

end ConfigShell
