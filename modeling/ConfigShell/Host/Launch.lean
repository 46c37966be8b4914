import ConfigShell.Host.Basic
/-!
# Running a command

A command runs in the configuration directory that goes with its place in the tree. That
directory is looked at first, so a command never starts anywhere else.
-/

namespace ConfigShell

/-- Why running a command failed. -/
inductive RunFault where
  | noSysconf (reason : Errno)
  | sysconfNotDirectory
  | notStarted (reason : StartFault)
  | exited (code : Nat)
  | killed (signal : Nat)
  deriving Repr, DecidableEq

namespace RunFault

/-- The wording of a failure. -/
def message : RunFault → Text
  | noSysconf reason => "cannot stat sysconfdir: " ++ reason.message
  | sysconfNotDirectory => "sysconfdir not a directory"
  | notStarted reason => "cannot run command: " ++ reason.message
  | exited code => "command exited normally with code " ++ Text.decimal code
  | killed signal => "command exited on signal with code " ++ Text.decimal signal

end RunFault

/-- The failure that an ending amounts to; only the exit code zero is none. -/
def Ending.fault? : Ending → Option RunFault
  | .exited 0 => none
  | .exited code => some (.exited code)
  | .killed signal => some (.killed signal)

namespace Host

/-- Runs `words`, a file and its arguments, in the directory `sysconf`. -/
def launch (host : Host) (environment : List (Text × Text)) (sysconf : Path)
    (file : Text) (arguments : List Text) : Shell (Except RunFault Reply) := do
  Shell.require sysconf
  match host.isDirectory sysconf with
  | .error reason => return .error (.noSysconf reason)
  | .ok false => return .error .sysconfNotDirectory
  | .ok true =>
    match ← host.start ⟨file, arguments, sysconf.toText, environment⟩ with
    | .error reason => return .error (.notStarted reason)
    | .ok reply => return .ok reply

end Host

end ConfigShell
