import ConfigShell.Path
import ConfigShell.Text.Characters
/-!
# The machine underneath

What the shell asks of the machine it runs on: which entries a directory has, whether a path is
a directory, what a file holds, whose home is where, and what happens when a program is started.
A `Host` answers these questions; the answer of a program may depend on the programs started
before it. What the shell does in return is kept in a `Journal`: the calls made, in order, and
what has been written to the two output streams. No question can be put about a path with a zero
byte, and strict streams take no stray byte: an action that comes to one breaks down, and what it
has done before stays in the journal.
-/

namespace ConfigShell

/-! ## Questions and answers -/

/-- Why the machine refuses a request. -/
inductive Errno where
  | noSuchFile
  | notDirectory
  | isDirectory
  | permissionDenied
  | notExecutable
  | tooManyLinks
  | nameTooLong
  | argumentsTooLong
  deriving Repr, DecidableEq

namespace Errno

/-- The machine's wording. -/
def message : Errno → Text
  | noSuchFile => "No such file or directory"
  | notDirectory => "Not a directory"
  | isDirectory => "Is a directory"
  | permissionDenied => "Permission denied"
  | notExecutable => "Exec format error"
  | tooManyLinks => "Too many levels of symbolic links"
  | nameTooLong => "File name too long"
  | argumentsTooLong => "Argument list too long"

/-- The machine's number for it. -/
def number : Errno → Nat
  | noSuchFile => 2
  | argumentsTooLong => 7
  | notExecutable => 8
  | permissionDenied => 13
  | notDirectory => 20
  | isDirectory => 21
  | nameTooLong => 36
  | tooManyLinks => 40

/-- Whether it means that there is no file to read. -/
def isAbsence : Errno → Bool
  | noSuchFile | notDirectory | isDirectory | tooManyLinks => true
  | notExecutable | permissionDenied | nameTooLong | argumentsTooLong => false

end Errno

/-- A program started: its file, the words after it, its working directory as it was asked for,
and all of its environment. -/
structure Call where
  file : Text
  arguments : List Text
  directory : Text
  environment : List (Text × Text)
  deriving Repr, DecidableEq

/-- How a program ended. -/
inductive Ending where
  | exited (code : Nat)
  | killed (signal : Nat)
  deriving Repr, DecidableEq

/-- What a program wrote and how it ended. -/
structure Reply where
  out : Text := []
  err : Text := []
  ending : Ending := .exited 0
  deriving Repr, DecidableEq

/-- Why a program did not start. -/
inductive StartFault where
  /-- A word with a zero byte cannot be handed over. -/
  | zeroByte
  | refused (reason : Errno)
  deriving Repr, DecidableEq

/-- The complaint about a zero byte. -/
def zeroByteMessage : Text := "embedded null byte"

/-- The wording of a failure to start. -/
def StartFault.message : StartFault → Text
  | .zeroByte => zeroByteMessage
  | .refused reason => reason.message

/-- What an entry of a directory is, links not followed. -/
inductive EntryKind where
  | directory
  | file
  | link
  | other
  deriving Repr, DecidableEq

/-- An entry of a directory. -/
structure DirectoryEntry where
  name : Text
  kind : EntryKind
  /-- What it leads to may be read and run. -/
  isRunnable : Bool
  deriving Repr, DecidableEq

/-- How the machine has set up the process of the shell: its standard streams, which hold UTF-8,
and how deeply it can go into values that are nested. -/
structure Setup where
  /-- Carriage returns end lines of the input stream too, as they do in a file. -/
  endsAtReturns : Bool := false
  /-- The input and the output stream refuse stray bytes, as they do in most locales. They are
  passed on otherwise. -/
  isStrict : Bool := false
  /-- How many lines of a strict input are handed out before a stray byte behind them is met: the
  input is read ahead in pieces. -/
  linesReady : Text → Nat := fun _ => 0
  /-- How deeply the values of a configuration file may be nested for it to be read. -/
  readableDepth : Nat := 490
  /-- How deeply a value may be nested for a message to show it. -/
  showableDepth : Nat := 990

/-- A machine. -/
structure Host where
  /-- The entries of a directory in some order, none if it cannot be read. -/
  entries : Path → List DirectoryEntry
  /-- Whether a path, links followed, is a directory. -/
  isDirectory : Path → Except Errno Bool
  /-- What a file holds. -/
  contents : Path → Except Errno Text
  /-- The home of the named user, or of the one running the shell. -/
  home : Option Text → Option Path
  /-- What comes of a call after the calls already made. -/
  reply : List Call → Call → Except Errno Reply
  setup : Setup := {}

namespace Host

/-- A machine with nothing on it. -/
def bare : Host where
  entries _ := []
  isDirectory _ := .error .noSuchFile
  contents _ := .error .noSuchFile
  home _ := none
  reply _ _ := .error .noSuchFile

end Host

/-! ## Effects -/

/-- What has been done so far. -/
structure Journal where
  calls : List Call := []
  out : Text := []
  err : Text := []
  deriving Repr, DecidableEq

/-- Why an action breaks down. -/
inductive Breakdown where
  /-- A path with a zero byte cannot be handed to the machine. -/
  | zeroByte
  /-- A parameter of no command leads nowhere, and nobody can be asked about it. -/
  | noCommand
  /-- A strict input holds a stray byte. -/
  | undecodable
  /-- A stray byte is to be written to a strict output. -/
  | unencodable
  /-- A value is nested too deeply to be read or to be shown. -/
  | tooDeep
  deriving Repr, DecidableEq

/-- The wording of a breakdown, without the bytes and places that the machine adds; there is none
for a missing command. -/
def Breakdown.message : Breakdown → Text
  | .zeroByte => zeroByteMessage
  | .noCommand => []
  | .undecodable => "'utf-8' codec can't decode byte"
  | .unencodable => "'utf-8' codec can't encode character"
  | .tooDeep => "maximum recursion depth exceeded"

/-- An action of the shell. -/
abbrev Shell := ExceptT Breakdown (StateM Journal)

namespace Shell

/-- What comes of an action after what has been done before. -/
def perform {α : Type} (act : Shell α) (journal : Journal := {}) : Except Breakdown α × Journal :=
  act.run journal

/-- Goes on only if the machine takes the path. -/
def require (p : Path) : Shell Unit := if p.isPassable then pure () else throw .zeroByte

/-- Adds to the output stream, as a program does that the shell has started. -/
def print (t : Text) : Shell Unit := modify fun j => { j with out := j.out ++ t }

/-- Writes a text of the shell itself to the output stream, which may be strict. -/
def write (setup : Setup) (t : Text) : Shell Unit :=
  if setup.isStrict && !decide t.IsWellFormed then throw .unencodable else print t

/-- Writes to the error stream. -/
def printError (t : Text) : Shell Unit := modify fun j => { j with err := j.err ++ t }

end Shell

namespace Call

/-- All words and all values of variables can be handed over: none has a zero byte. -/
def isPassable (c : Call) : Bool :=
  !(c.file :: c.arguments ++ c.environment.map (·.2)).any (·.contains 0)

end Call

namespace Host

/-- Starts a program and waits for its end. Only a program that did start is a call made. -/
def start (host : Host) (call : Call) : Shell (Except StartFault Reply) := do
  if !call.isPassable then return .error .zeroByte
  let journal ← get
  match host.reply journal.calls call with
  | .error reason => return .error (.refused reason)
  | .ok reply =>
    set { journal with calls := journal.calls ++ [call] }
    return .ok reply

end Host

end ConfigShell
