import ConfigShell.CallerCompletion
import ConfigShell.CommandLine.Options
import ConfigShell.Prompt.Loop
import ConfigShell.Script
import ConfigShell.Text.Lines
/-!
# A run of the shell

One run from the command line to the exit code. What the shell does is chosen in this order:
completion for the calling shell if a line to complete is given, the command on the command
line, the script in the named file, the script on the input stream, and the prompt if the input
is a terminal.
-/

namespace ConfigShell.CommandLine

/-- Where lines come from if no file is named. -/
inductive Input where
  | stream (contents : Text)
  | terminal (events : List Prompt.Event)
  deriving Repr, DecidableEq

namespace Input

/-- The script on the input. -/
def script : Input → Text
  | stream contents => contents
  | terminal _ => []

end Input

/-- Why a run has no exit code of its own. -/
inductive Abort where
  /-- The command line asks for no session. -/
  | stopped (s : Stop)
  | noHome
  | notUtf8
  /-- The place of the cursor in the line to complete is no number. -/
  | cursor (place : Text) (f : Text.NumeralFault)
  /-- A whole number has too many digits: so many to be read, or too many to be shown. -/
  | tooManyDigits (count : Option Nat)
  /-- The shell broke down, or went too deep into its configuration. -/
  | broken (b : Breakdown)
  deriving Repr, DecidableEq

/-- How a run ends. -/
structure Finish where
  code : Nat
  /-- The prompts shown. -/
  prompts : List Text := []
  deriving Repr, DecidableEq

/-- A run, or a part of it. -/
abbrev Run := ExceptT Abort (StateM Journal)

/-- An action of the shell as part of a run, which a breakdown ends. -/
def Run.ofShell {α : Type} (act : Shell α) : Run α := ExceptT.adapt Abort.broken act

namespace Options

/-- The command tree of a run. -/
def tree (o : Options) (environment : List (Text × Text)) : CommandTree :=
  CommandTree.ofEnvironment environment (some o.libexec) (some o.sysconf) (some o.suffixes)

/-- The session that a run starts with. -/
def session (o : Options) : Session := { isTracing := o.isDebugging }

/-- The script that the options name, if they name one that is not the input. -/
def script? (o : Options) : Option Path :=
  o.inputFile.filter (·.toText != [0x2D])

end Options

/-- Carries out the lines of the file at `path`. -/
def runFile (site : Site) (s : Session) (path : Path) : Shell Finish := do
  Shell.require path
  match site.host.contents path with
  | .error reason =>
    Shell.complain ("error: " ++ unreadableMessage reason path)
    return { code := 1 }
  | .ok contents =>
    let (code, _) ← s.readLines site (Text.scriptLines contents)
    return { code := code }

/-- The lines of the input stream. -/
def streamLines (setup : Setup) (contents : Text) : List Text :=
  if setup.endsAtReturns then Text.scriptLines contents else Text.linesKeepingEnds contents

/-- The input stream refuses what it holds. -/
def RefusesStream (setup : Setup) (contents : Text) : Prop :=
  setup.isStrict = true ∧ ¬ contents.IsWellFormed

instance (setup : Setup) (contents : Text) : Decidable (RefusesStream setup contents) :=
  inferInstanceAs (Decidable (setup.isStrict = true ∧ ¬ contents.IsWellFormed))

/-- The lines handed out of an input stream before it refuses a stray byte. -/
def readyLines (setup : Setup) (contents : Text) : List Text :=
  ((streamLines setup contents).takeWhile fun line => line.IsWellFormed).take
    (setup.linesReady contents)

/-- Carries out the lines of the input stream, as far as it hands them out. -/
def runStream (site : Site) (s : Session) (contents : Text) : Shell Finish := do
  let setup := site.host.setup
  let (code, _) ←
    if RefusesStream setup contents then
      s.readLines site (readyLines setup contents) (throw .undecodable)
    else s.readLines site (streamLines setup contents)
  return { code := code }

/-- Carries out the lines of the input, or asks for them at a terminal. -/
def runInput (site : Site) (who : Prompt.Identity) (s : Session) (input : Input)
    (isScript : Bool) : Shell Finish := do
  match isScript, input with
  | false, .terminal events =>
    let (prompts, _) ← s.interact site who events
    return { code := 0, prompts := prompts }
  | _, _ => runStream site s input.script

/-- Runs the shell with its options, without a line to complete. -/
def runSession (site : Site) (who : Prompt.Identity) (input : Input) (o : Options) :
    Shell Finish := do
  if !o.commands.isEmpty then
    let (code, _) ← o.session.runWords site o.commands
    return { code := code }
  else
    match o.script? with
    | some path => runFile site o.session path
    | none => runInput site who o.session input o.inputFile.isSome

/-- Runs the shell with its options. -/
def runOptions (host : Host) (who : Prompt.Identity) (environment : List (Text × Text))
    (input : Input) (o : Options) : Run Finish := do
  let site : Site := ⟨host, o.tree environment⟩
  match CallerCompletion.line? environment with
  | .error f => throw (.cursor ((valueOf? environment "COMP_POINT").getD []) f)
  | .ok (some line) =>
    Run.ofShell (o.session.completeForCaller site line)
    return { code := 0 }
  | .ok none => Run.ofShell (runSession site who input o)

/-- What a fault in the options comes to: a message, or the end of the run. -/
def OptionsFault.complaint : OptionsFault → Except Abort Text
  | .badValue key expected value => .ok (badValueMessage key expected value)
  | .badFormat .malformed => .ok "cannot read config: malformed"
  | .unreadable reason path => .ok ("cannot read config: " ++ unreadableMessage reason path)
  | .badFormat .notUtf8 => .error .notUtf8
  | .badFormat (.tooLong digits) => .error (.tooManyDigits (some digits))
  | .badFormat .tooDeep | .unshowable .tooDeep => .error (.broken .tooDeep)
  | .unshowable .tooManyDigits => .error (.tooManyDigits none)
  | .noHome => .error .noHome
  | .zeroByte => .error (.broken .zeroByte)

/-- Runs the shell with the words of its command line. -/
def run (host : Host) (who : Prompt.Identity) (environment : List (Text × Text)) (input : Input)
    (words : List Text) : Run Finish := do
  let arguments ← (Arguments.ofWords words).mapError Abort.stopped
  match Options.resolve host environment arguments with
  | .ok o => runOptions host who environment input o
  | .error f =>
    let message ← f.complaint
    Run.ofShell (Shell.complain ("error: " ++ message))
    return { code := 2 }

end ConfigShell.CommandLine
