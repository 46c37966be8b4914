import ConfigShell.Landing.Basic
import ConfigShell.Probe.Intake
/-!
# Asking a command

A command is asked about a parameter by running it with `-c` and the words of the parameters up
to and including that one. What it prints fills in the candidates; a failure is kept with the
parameter, and the candidates read before it stay.
-/

namespace ConfigShell.Probe

/-- The words after the command's file for asking about the last of `parameters`. -/
def arguments (parameters : List Parameter) : List Text := "-c" :: Parameter.words parameters

/-- The whole command line for asking about the parameter `p`, at which `l` stands. -/
def commandLine (l : Landing) (p : Parameter) : Except ParameterFault (List Text) :=
  match p.command with
  | none => .error .noCommand
  | some c => .ok (c.executable.toText :: arguments l.parameters)

/-- Takes a finished program's answer. -/
def receive (p : Parameter) (reply : Reply) : Parameter :=
  let p := { collect p reply.out with complaint := reply.err }
  match reply.ending.fault? with
  | none => p
  | some reason => { p with fault := some (.notProbed reason) }

/-- Asks about the parameter `p`, entered from `l`. -/
def run (host : Host) (environment : List (Text × Text)) (l : Landing) (p : Parameter) :
    Shell Parameter := do
  match p.command with
  | none => throw .noCommand
  | some c =>
    let words := arguments (l.enter (.parameter p)).parameters
    match ← host.launch environment c.sysconf c.executable.toText words with
    | .error reason => return { p with fault := some (.notProbed reason) }
    | .ok reply => return receive p reply

end ConfigShell.Probe
