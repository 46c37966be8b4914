import ConfigShell.Host.Basic
import ConfigShell.Text.LowerCase
/-!
# What a directory offers

A directory offers its sub-directories as containers and its runnable files as commands; hidden
entries are left out. A file whose name ends in one of the known suffixes is a command under the
name without the suffix, whether or not it may be run. Links lead to commands only.
-/

namespace ConfigShell

/-- The names one directory offers, in order, and the file behind each command. -/
structure Listing where
  containers : List Text := []
  commands : List Text := []
  files : List (Text × Text) := []
  deriving Repr, DecidableEq

namespace Listing

/-- Whether `name` is longer than `suffix` and ends in it, upper and lower case being alike. -/
def hasSuffix (name suffix : Text) : Bool :=
  Text.width suffix < Text.width name && (Text.lowerCodes suffix).isSuffixOf (Text.lowerCodes name)

/-- A name without a suffix it has. The empty suffix, which every name has, leaves nothing. -/
def withoutSuffix (name suffix : Text) : Text :=
  if suffix.isEmpty then [] else Text.takeCharacters (Text.width name - Text.width suffix) name

/-- The name under which a file is a command, if it is one: the first of the suffixes that it
has is cut off, and without any it has to be runnable. -/
def commandName? (suffixes : List Text) (e : DirectoryEntry) : Option Text :=
  match suffixes.find? (hasSuffix e.name) with
  | some suffix => some (withoutSuffix e.name suffix)
  | none => if e.isRunnable then some e.name else none

/-- An entry whose name begins with a dot is hidden. -/
def isHidden (e : DirectoryEntry) : Bool := e.name.head? == some 0x2E

/-- The command and its file, for an entry that is one. -/
def command? (suffixes : List Text) (e : DirectoryEntry) : Option (Text × Text) :=
  match e.kind with
  | .file | .link => (commandName? suffixes e).map (·, e.name)
  | .directory | .other => none

/-- Keeps the first file of each command. -/
def addFile (files : List (Text × Text)) (new : Text × Text) : List (Text × Text) :=
  if files.any (·.1 == new.1) then files else files ++ [new]

/-- The listing of a directory with these entries. -/
def ofEntries (suffixes : List Text) (entries : List DirectoryEntry) : Listing :=
  let seen := entries.filter (!isHidden ·)
  let files := (seen.filterMap (command? suffixes)).foldl addFile []
  { containers := Text.sortByCode ((seen.filter (·.kind == .directory)).map (·.name))
    commands := Text.sortByCode (files.map (·.1))
    files := files }

/-- The listing of a directory of a machine; one that cannot be read offers nothing. -/
def ofDirectory (host : Host) (suffixes : List Text) (path : Path) : Shell Listing := do
  Shell.require path
  return ofEntries suffixes (host.entries path)

end Listing

end ConfigShell
