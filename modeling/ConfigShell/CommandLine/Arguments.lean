import ConfigShell.CommandLine.Switch
/-!
# Arguments

What a command line asks for. The operands of the command to run stand together: they are the
first group of words that are neither switches nor values of switches. Two dashes in front of
or within the group end the switches and are dropped.
-/

namespace ConfigShell.CommandLine

/-- What a command line asks for. An empty text asks for nothing. -/
structure Arguments where
  commands : List Text := []
  file : Text := []
  libexec : Text := []
  sysconf : Text := []
  config : Text := []
  noHistory : Bool := false
  debug : Bool := false
  deriving Repr, DecidableEq

/-- Why a command line starts no session. -/
inductive Stop where
  | help
  | version
  | fault (f : UsageFault)
  deriving Repr, DecidableEq

/-! ## Switches -/

/-- The switches that a switch and the text glued to it ask for, each with its value. What is
glued to a short switch without a value is further short switches. -/
def cluster (isShort : Bool) (s : Switch) :
    Text → Except UsageFault (List (Switch × Option Text))
  | [] => if s.takesValue then .ok [(s, some [])] else .error (.unwantedValue s [])
  | letter :: more =>
    if s.takesValue then .ok [(s, some (letter :: more))]
    else
      match isShort, Switch.ofLetter? letter with
      | true, some next =>
        if more.isEmpty then .ok [(s, none), (next, none)]
        else (cluster true next more).map ((s, none) :: ·)
      | _, _ => .error (.unwantedValue s (letter :: more))

namespace Arguments

/-- What a switch with its value adds. A value of two dashes is none. -/
def add (a : Arguments) (s : Switch) (value : Text) : Except Stop Arguments :=
  let value := if value == [0x2D, 0x2D] then [] else value
  match s with
  | .help => .error .help
  | .version => .error .version
  | .file => .ok { a with file := value }
  | .libexec => .ok { a with libexec := value }
  | .sysconf => .ok { a with sysconf := value }
  | .config => .ok { a with config := value }
  | .noHistory => .ok { a with noHistory := true }
  | .debug => .ok { a with debug := true }

end Arguments

/-! ## Scanning -/

/-- The group of operands. -/
inductive Group where
  | awaited
  | underway
  | ended
  deriving Repr, DecidableEq

/-- How far a command line has been read. -/
structure Scan where
  arguments : Arguments := {}
  group : Group := .awaited
  /-- Words that nothing can be made of. -/
  leftOver : List Text := []
  deriving Repr, DecidableEq

namespace Scan

/-- A switch ends the group of operands. -/
def endGroup (s : Scan) : Scan :=
  { s with group := if s.group = .awaited then .awaited else .ended }

/-- Takes an operand. -/
def operand (s : Scan) (word : Text) : Scan :=
  match s.group with
  | .ended => { s with leftOver := s.leftOver ++ [word] }
  | _ =>
    { s with
      group := .underway
      arguments := { s.arguments with commands := s.arguments.commands ++ [word] } }

/-- Takes two dashes, which are dropped from the group. -/
def divider (s : Scan) (word : Text) : Scan :=
  match s.group with
  | .ended => { s with leftOver := s.leftOver ++ [word] }
  | _ => { s with group := .underway }

/-- Takes switches with their values. -/
def switches (s : Scan) (asked : List (Switch × Option Text)) : Except Stop Scan := do
  let arguments ← asked.foldlM (fun a (s, value) => a.add s (value.getD [])) s.arguments
  return { s.endGroup with arguments := arguments }

/-- The switches asked for by a word; those of the last one may still lack their value. -/
def asked (s : Switch) (isShort : Bool) (glued : Option Text) :
    Except Stop (List (Switch × Option Text)) :=
  match glued with
  | none => .ok [(s, none)]
  | some text => (cluster isShort s text).mapError .fault

/-- The switch at the end that waits for the next word to be its value. -/
def waiting? (asked : List (Switch × Option Text)) : Option Switch :=
  match asked.getLast? with
  | some (s, none) => if s.takesValue then some s else none
  | _ => none

/-- Reads the words in turn. All that a word asks for is read before any of it is acted on. -/
def run (s : Scan) : List (Text × Reading) → Except Stop Scan
  | [] => .ok s
  | (word, .operand) :: rest => run (s.operand word) rest
  | (word, .divider) :: rest => run (s.divider word) rest
  | (word, .unknown) :: rest =>
    run { s.endGroup with leftOver := s.leftOver ++ [word] } rest
  | (_, .switch first isShort glued) :: rest => do
    let asked ← Scan.asked first isShort glued
    match waiting? asked, rest with
    | none, rest => run (← s.switches asked) rest
    | some last, (value, .operand) :: rest =>
      run (← s.switches (asked.dropLast ++ [(last, some value)])) rest
    | some last, _ => .error (.fault (.missingValue last))

end Scan

/-- Reads a command line. -/
def Arguments.ofWords (words : List Text) : Except Stop Arguments := do
  let readings ← (Reading.ofWords words).mapError .fault
  let scan ← Scan.run {} readings
  if scan.leftOver.isEmpty then return scan.arguments
  else throw (.fault (.unrecognized scan.leftOver))

/-! ## Stopping -/

/-- The name and the version of the program. -/
def versionLine : Text := "device 0.1.0\n"

/-- How the program is called. -/
def usage : Text :=
  "usage: device [-h] [-f FILE] [--libexec DIR] [--sysconf DIR] [--config FILE]\n"
    ++ "              [--no-history] [--debug] [-v]\n"
    ++ "              [commands ...]\n"

/-- What the switches are for. -/
def helpText : Text :=
  usage
    ++ "\nInteractive shell for a filesystem-backed command tree\n"
    ++ "\npositional arguments:\n"
    ++ "  commands              Run this one command and exit\n"
    ++ "\noptions:\n"
    ++ "  -h, --help            show this help message and exit\n"
    ++ "  -f FILE, --file FILE  Read commands from FILE ('-' for stdin)\n"
    ++ "  --libexec DIR         Command tree root (default: /usr/libexec/device/state)\n"
    ++ "  --sysconf DIR         Configuration tree root (default: /etc/device)\n"
    ++ "  --config FILE         Config file (default: ~/.device.toml)\n"
    ++ "  --no-history          Do not load or save line history\n"
    ++ "  --debug               Dump resolved commands and debug logging to stderr\n"
    ++ "  -v, --version         show program's version number and exit\n"

namespace Stop

/-- The exit code. -/
def code : Stop → Nat
  | .fault _ => 2
  | _ => 0

/-- What goes to the output stream. -/
def out : Stop → Text
  | .help => helpText
  | .version => versionLine
  | .fault _ => []

/-- The complaint, which follows the usage on the error stream. -/
def complaint : Stop → Text
  | .fault f => "device: error: " ++ f.message
  | _ => []

end Stop

end ConfigShell.CommandLine
