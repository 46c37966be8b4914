import ConfigShell.Landing.Basic
import ConfigShell.Text.Replaced
/-!
# Executing a command

Where a walk ends at a command or one of its parameters, the command is run with `--` and the
words of all the parameters. A parameter with a fault prevents that; of several the deepest is
reported.
-/

namespace ConfigShell

/-- Why nothing was executed, or how the execution failed. -/
inductive ExecutionFault where
  | notCommand (name : Option Text)
  | parameter (fault : ParameterFault) (complaint : Text)
  | failed (reason : RunFault)
  /-- A fault that others give the wording of. -/
  | described (message complaint : Text)
  deriving Repr, DecidableEq

namespace ExecutionFault

/-- The fault with a wording of one's own, and what a command had to say about it. -/
def ofMessage (message : Text) (complaint : Text := []) : ExecutionFault :=
  .described message complaint

/-- The wording of a fault. -/
def message : ExecutionFault → Text
  | notCommand none => "'None' is not a command"
  | notCommand (some name) => "'" ++ name ++ "' is not a command"
  | parameter fault _ => fault.message
  | failed reason => reason.message
  | described message _ => message

/-- What the command had to say about it. -/
def complaint : ExecutionFault → Text
  | parameter _ complaint => complaint
  | described _ complaint => complaint
  | _ => []

/-- The report: the message and below it what the command wrote. -/
def report (f : ExecutionFault) : Text :=
  if f.complaint.isEmpty then f.message
  else f.message ++ "\n" ++ Text.trimRight Text.newline (Text.replaceStrays f.complaint)

end ExecutionFault

namespace Execution

/-- The words after the command's file for executing it with `parameters`. -/
def arguments (parameters : List Parameter) : List Text := "--" :: Parameter.words parameters

/-- The fault of the deepest parameter that has one. -/
def faulty? (parameters : List Parameter) : Option ExecutionFault :=
  parameters.reverse.findSome? fun p => p.fault.map (.parameter · p.complaint)

/-- The command to execute and the words after its file. -/
def plan (l : Landing) : Except ExecutionFault (Command × List Text) :=
  match l.command? with
  | none => .error (.notCommand l.node.name)
  | some c =>
    match faulty? l.parameters with
    | some fault => .error fault
    | none => .ok (c, arguments l.parameters)

/-- Executes the command a walk has ended at; its output goes where the shell's own goes. -/
def run (host : Host) (environment : List (Text × Text)) (l : Landing) :
    Shell (Except ExecutionFault Unit) := do
  match plan l with
  | .error fault => return .error fault
  | .ok (c, words) =>
    match ← host.launch environment c.sysconf c.executable.toText words with
    | .error reason => return .error (.failed reason)
    | .ok reply =>
      Shell.print reply.out
      Shell.printError reply.err
      match reply.ending.fault? with
      | some reason => return .error (.failed reason)
      | none => return .ok ()

end Execution

end ConfigShell
