import ConfigShell.CommandLine.Arguments
import ConfigShell.CommandTree
import ConfigShell.Config.Reader
/-!
# Options

What a run of the shell is told. Each option has a default, which the configuration file may
replace, which a variable of the environment may replace, which the command line may replace.
-/

namespace ConfigShell.CommandLine

/-- What a run of the shell is told. -/
structure Options where
  libexec : Path
  sysconf : Path
  suffixes : List Text
  /-- None if lines are not remembered. -/
  historyFile : Option Path
  inputFile : Option Path
  commands : List Text
  isDebugging : Bool
  deriving Repr, DecidableEq

/-- What a value of the configuration file ought to be. -/
inductive Expected where
  | text
  | texts
  deriving Repr, DecidableEq

/-- The wording of what is expected. -/
def Expected.phrase : Expected → Text
  | .text => "a string"
  | .texts => "a list of strings"

/-- Why there are no options. -/
inductive OptionsFault where
  | badValue (key : Text) (expected : Expected) (value : Config.Value)
  /-- A value is not what it ought to be, and cannot be shown. -/
  | unshowable (f : Config.ShowFault)
  | badFormat (f : Config.FormatFault)
  | unreadable (reason : Errno) (path : Path)
  /-- Nobody knows the home that a path starts at. -/
  | noHome
  /-- The user whose home a path starts at has a name with a zero byte. -/
  | zeroByte

/-- The fault of a value that is not what it ought to be. -/
def OptionsFault.ofValue (host : Host) (key : Text) (expected : Expected) (value : Config.Value) :
    OptionsFault :=
  match value.showFault? host.setup.showableDepth with
  | none => .badValue key expected value
  | some f => .unshowable f

/-- The wording of a bad value. -/
def badValueMessage (key : Text) (expected : Expected) (value : Config.Value) : Text :=
  "invalid config value for '" ++ key ++ "' (expected " ++ expected.phrase ++ "): " ++ value.literal

/-- The wording of an unknown home. -/
def noHomeMessage : Text := "Could not determine home directory."

/-- The wording of a file that cannot be read. -/
def unreadableMessage (reason : Errno) (path : Path) : Text :=
  "[Errno " ++ Text.decimal reason.number ++ "] " ++ reason.message ++ ": "
    ++ Text.quoted path.toText

/-! ## Homes -/

/-- The home of the one running the shell. -/
def ownHome (host : Host) : Except OptionsFault Path :=
  match host.home none with
  | some home => .ok home
  | none => .error .noHome

/-- Replaces a tilde at the start of a path by the home of the one running the shell, and a tilde
with a name by the home of the named user. -/
def expandHome (host : Host) (p : Path) : Except OptionsFault Path :=
  match p.isAbsolute, p.parts with
  | false, (0x7E :: name) :: rest =>
    if name.contains 0 then .error .zeroByte
    else
      match host.home (if name.isEmpty then none else some name) with
      | some home => .ok (home.append ⟨[], rest⟩)
      | none => .error .noHome
  | _, _ => .ok p

/-! ## The configuration file -/

/-- The table of a configuration file; one that is not there is empty. No file has a name with a
zero byte. -/
def loadTable (host : Host) (path : Path) : Except OptionsFault Config.Table :=
  if !path.isPassable then .ok []
  else
    match host.contents path with
    | .ok file => (Config.readTable host.setup.readableDepth file).mapError .badFormat
    | .error reason => if reason.isAbsence then .ok [] else .error (.unreadable reason path)

/-- The path at a key. -/
def pathAt? (host : Host) (table : Config.Table) (key : Text) :
    Except OptionsFault (Option Path) :=
  match table.value? key with
  | none => .ok none
  | some (.text t) => some <$> expandHome host (Path.ofText t)
  | some v => .error (.ofValue host key .text v)

/-- The text that a value is. -/
def textOf? : Config.Value → Option Text
  | .text t => some t
  | _ => none

/-- The suffixes that a file lists; empty ones are dropped. -/
def suffixesAt? (host : Host) (table : Config.Table) :
    Except OptionsFault (Option (List Text)) :=
  match table.value? "pathext" with
  | none => .ok none
  | some (.list items) =>
    match items.mapM textOf? with
    | some texts => .ok (some (texts.filter (!·.isEmpty)))
    | none => .error (.ofValue host "pathext" .texts (.list items))
  | some v => .error (.ofValue host "pathext" .texts v)

/-- The history file that a file tells of, given the default. -/
def historyFileAt (host : Host) (table : Config.Table) (default : Path) :
    Except OptionsFault (Option Path) :=
  match table.value? "history" with
  | some (.table history) => do
    let file ← pathAt? host history "file"
    match Config.Table.value? history "enabled" with
    | some (.boolean false) => return none
    | _ => return file.getD default
  | _ => .ok (some default)

/-! ## All together -/

/-- The path that a text writes, unless it is empty. -/
def pathOf? (t : Text) : Option Path := if t.isEmpty then none else some (Path.ofText t)

/-- The value of a variable that is set and not empty. -/
def setValueOf? (environment : List (Text × Text)) (name : Text) : Option Text :=
  (valueOf? environment name).filter (!·.isEmpty)

/-- The configuration file that a command line names, or else the one in the home. -/
def Arguments.configFile (a : Arguments) (home : Path) : Path :=
  (pathOf? a.config).getD (home.child ".device.toml")

/-- The options of a run. -/
def Options.resolve (host : Host) (environment : List (Text × Text)) (a : Arguments) :
    Except OptionsFault Options := do
  let default : CommandTree := {}
  let named (name : Text) : Option Path := (setValueOf? environment name).map Path.ofText
  let home ← match named "HOME" with
    | some home => pure home
    | none => ownHome host
  let table ← loadTable host (a.configFile home)
  let libexec ← pathAt? host table "libexec"
  let sysconf ← pathAt? host table "sysconf"
  let suffixes ← suffixesAt? host table
  let historyFile ← historyFileAt host table (home.child ".device_history")
  return {
    libexec := (((pathOf? a.libexec).or (named "DEVICE_LIBEXEC")).or libexec).getD
      default.libexec
    sysconf := (((pathOf? a.sysconf).or (named "DEVICE_SYSCONF")).or sysconf).getD
      default.sysconf
    suffixes := (((setValueOf? environment "PATHEXT").map parseSuffixes).or suffixes).getD []
    historyFile := if a.noHistory then none else historyFile
    inputFile := pathOf? a.file
    commands := a.commands
    isDebugging := a.debug }

end ConfigShell.CommandLine
