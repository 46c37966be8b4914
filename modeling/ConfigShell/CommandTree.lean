import ConfigShell.Landing.Basic
import ConfigShell.Listing
/-!
# The command tree of a machine

Two trees of directories of the same shape: one holds the commands, the other the directories
they run in. Together with the suffixes that make a file a command and the environment that
programs see, they are all that a session knows of the machine.
-/

namespace ConfigShell

/-- Where the commands are and how they are run. -/
structure CommandTree where
  libexec : Path := "/usr/libexec/device/state"
  sysconf : Path := "/etc/device"
  suffixes : List Text := []
  environment : List (Text × Text) := []
  deriving Repr, DecidableEq

/-- The words that leave the session, offered at the top. -/
def rootBuiltins : List Text := ["exit", "quit"]

/-- The variables handed on to programs. -/
def allowedVariables : List Text := ["LANG", "LC_ALL", "TERM", "TMPDIR", "TZ", "USER"]

/-- The value of a variable. -/
def valueOf? (environment : List (Text × Text)) (name : Text) : Option Text :=
  environment.lookup name

/-- What programs see of an environment. -/
def sanitize (environment : List (Text × Text)) : List (Text × Text) :=
  allowedVariables.filterMap fun name => (valueOf? environment name).map (name, ·)

/-- The suffixes of a list separated by semicolons; empty ones are dropped. -/
def parseSuffixes (list : Text) : List Text :=
  (Text.splitOn 0x3B list).filter (!·.isEmpty)

namespace CommandTree

/-- The tree whose programs see what may be seen of `environment`; what is not given is taken
from there or from the defaults. -/
def ofEnvironment (environment : List (Text × Text)) (libexec sysconf : Option Path := none)
    (suffixes : Option (List Text) := none) : CommandTree :=
  let default : CommandTree := {}
  { libexec := libexec.getD default.libexec
    sysconf := sysconf.getD default.sysconf
    suffixes := suffixes.getD (parseSuffixes ((valueOf? environment "PATHEXT").getD []))
    environment := sanitize environment }

/-- A container at a place of the two trees. -/
def containerAt (tree : CommandTree) (host : Host) (label : Label) (libexec sysconf : Path)
    (builtins : List Text) : Shell Container := do
  let listing ← Listing.ofDirectory host tree.suffixes libexec
  return {
    toLabel := label, libexec := libexec, sysconf := sysconf
    containers := listing.containers, commands := listing.commands, files := listing.files
    builtins := builtins }

/-- The top of the tree. -/
def top (tree : CommandTree) (host : Host) : Shell Container :=
  tree.containerAt host { name := none } tree.libexec tree.sysconf rootBuiltins

/-- The container of a name below another. -/
def container (tree : CommandTree) (host : Host) (parent : Container) (name : Text)
    (token : Option Line.Token) : Shell Container :=
  tree.containerAt host { name := some name, token := token } (parent.libexec.child name)
    (parent.sysconf.child name) []

end CommandTree

/-- The command of a name in a container. It runs in the configuration directory of the
container. -/
def Container.command (parent : Container) (name : Text) (token : Option Line.Token) : Command :=
  { name := some name, token := token
    executable := parent.libexec.child ((parent.files.lookup name).getD name)
    sysconf := parent.sysconf }

end ConfigShell
