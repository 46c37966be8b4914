import ConfigShell.CommandLine.Run
/-!
# The program

The outer layer hands the words of the command line, the variables, the files that are named
and the input stream to the shell, and writes what comes of it. Listing directories and starting
programs is out of its reach, so that the command tree it serves is empty.
-/

namespace ConfigShell.Program

/-- The variables that the shell looks at. -/
def variableNames : List String :=
  ["HOME", "DEVICE_LIBEXEC", "DEVICE_SYSCONF", "PATHEXT", "COMP_LINE", "COMMAND_LINE", "COMP_POINT",
   "LANG", "LC_ALL", "LC_CTYPE", "TERM", "TMPDIR", "TZ", "USER"]

/-- The variables that are set. -/
def environment : IO (List (Text × Text)) :=
  variableNames.filterMapM fun name => do
    return (← IO.getEnv name).map fun value => (Text.ofString name, Text.ofString value)

/-- Why a file was not read. -/
def errnoOf : IO.Error → Errno
  | .permissionDenied .. => .permissionDenied
  | .inappropriateType .. => .isDirectory
  | .invalidArgument _ 36 _ => .nameTooLong
  | _ => .noSuchFile

/-- What a file holds. -/
def readFile (path : Path) : IO (Except Errno Text) := do
  match String.fromUTF8? (ByteArray.mk path.toText.toArray) with
  | none => return .error .noSuchFile
  | some name =>
    try return .ok (← IO.FS.readBinFile name).toList
    catch e => return .error (errnoOf e)

/-- The locales in which the streams pass stray bytes on. -/
def lenientLocales : List Text := [[], "C", "POSIX", "C.UTF-8", "C.utf8", "UTF-8"]

/-- The variables that name a locale. -/
def localeNames : List Text := ["LC_ALL", "LC_CTYPE", "LANG"]

/-- The locale that the variables name: the first of them that is set to anything counts. -/
def locale (environment : List (Text × Text)) : Text :=
  (localeNames.findSome? (CommandLine.setValueOf? environment)).getD []

/-- How many bytes of the input are read ahead at a time. -/
def pieceLength : Nat := 8192

/-- How many lines stand in the pieces before the one with the first stray byte. -/
def linesReady (t : Text) : Nat :=
  let read := ((Text.characters t).takeWhile (!Text.isStray ·)).flatten.length
  (t.take (read / pieceLength * pieceLength)).count Text.newline

/-- The machine of which these files have been read. -/
def machine (files : List (Path × Except Errno Text)) (home : Option Path)
    (environment : List (Text × Text)) : Host :=
  { Host.bare with
    contents := fun path => (files.lookup path).getD (.error .noSuchFile)
    home := fun user => if user.isNone then home else none
    setup := { isStrict := !lenientLocales.contains (locale environment), linesReady } }

/-- The files that a run may read. -/
def filesOf (home : Option Path) (words : List Text) : List Path :=
  match CommandLine.Arguments.ofWords words with
  | .ok a => (home.map a.configFile).toList ++ (CommandLine.pathOf? a.file).toList
  | .error _ => []

/-- All that is left of a stream. -/
partial def readRest (stream : IO.FS.Stream) : IO Text := do
  let bytes ← stream.read 65536
  if bytes.isEmpty then return []
  else return bytes.toList ++ (← readRest stream)

/-- Writes a text to a stream. -/
def write (stream : IO.FS.Stream) (t : Text) : IO Unit := do
  stream.write (ByteArray.mk t.toArray)
  stream.flush

/-- The input stream as a script, or line by line as typed at a terminal. -/
def input (stream : IO.FS.Stream) : IO CommandLine.Input := do
  let contents ← readRest stream
  if ← stream.isTty then
    return .terminal ((Text.linesKeepingEnds contents).map fun line =>
      .typed (Text.trimRight Text.newline line))
  else return .stream contents

/-- The exit code of a run that ends without one, and what is left to say. -/
def settle : CommandLine.Abort → Nat × Text × Text
  | .stopped s =>
    (s.code, s.out,
      if s.complaint.isEmpty then []
      else CommandLine.usage ++ Text.spellStrays s.complaint ++ [Text.newline])
  | .noHome => (1, [], CommandLine.noHomeMessage ++ [Text.newline])
  | .notUtf8 => (1, [], "error: config is not UTF-8\n")
  | .cursor place f => (1, [], f.message place ++ [Text.newline])
  | .tooManyDigits count => (1, [], Text.tooManyDigitsMessage count ++ [Text.newline])
  | .broken b => (1, [], b.message ++ [Text.newline])

end ConfigShell.Program

open ConfigShell in
/-- Runs the shell. -/
def main (arguments : List String) : IO UInt32 := do
  let words := arguments.map Text.ofString
  let environment ← Program.environment
  let home := (CommandLine.setValueOf? environment "HOME").map Path.ofText
  let files ← (Program.filesOf home words).mapM fun path => return (path, ← Program.readFile path)
  let user := (valueOf? environment "USER").getD "user"
  let (finish, journal) := CommandLine.run (Program.machine files home environment)
    ⟨user, "localhost"⟩ environment (← Program.input (← IO.getStdin)) words |>.run {}
  let (code, out, err) := match finish with
    | .ok f => (f.code, [], [])
    | .error abort => Program.settle abort
  Program.write (← IO.getStdout) (journal.out ++ out)
  Program.write (← IO.getStderr) (journal.err ++ err)
  return code.toUInt32
