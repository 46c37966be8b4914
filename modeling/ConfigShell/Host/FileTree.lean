import ConfigShell.Host.Entry
import ConfigShell.Host.Interpreter
/-!
# A machine given as a tree

The machine whose directories, files and programs are the entries of a tree. It serves to try the
shell out without touching a real machine. What is run is a program in the end: a script is handed
to what it names.
-/

namespace ConfigShell

namespace Entry

/-! ## Running programs -/

/-- Whether an entry can be started at all. -/
def mayStart : Entry → Bool
  | program runnable _ _ | file runnable _ => runnable
  | _ => false

/-- The most scripts that are handed on for one call, programs being scripts themselves. -/
def maxScripts : Nat := 5

/-- The program that answers a call of `e` in the end, and the call as it reaches it: a script is
handed to its interpreter, with its own name before the words of the call. -/
def handedOn (top : Entry) (limit : Nat) (e : Entry) (call : Call) :
    Except Errno (Entry × Call) := do
  match e with
  | program true .. => if limit = 0 then throw .tooManyLinks else return (e, call)
  | file true contents =>
    let some i := Interpreter.ofScript? contents | throw .notExecutable
    let here ← top.place [] call.directory
    let next := (← top.place here.names i.file).entry
    match limit with
    | 0 => throw (if next.mayStart then .tooManyLinks else .permissionDenied)
    | limit + 1 =>
      top.handedOn limit next
        { call with file := i.file, arguments := i.word.toList ++ call.file :: call.arguments }
  | _ => throw .permissionDenied

/-- What a program answers to the words after its name. -/
def answer (e : Entry) (words : List Text) : Reply :=
  match e, words with
  | program _ probe execute, first :: words =>
    let rules := if first == Text.ofString "-c" then probe
      else if first == Text.ofString "--" then execute else []
    ((rules.find? (·.covers words)).map (·.reply.passedOn)).getD {}
  | _, _ => {}

/-- The directories in which a program is looked for whose file is given without a slash. -/
def programDirectories : List Path := ["/bin", "/usr/bin"]

/-- The first of several entries that is there; another failure to reach one goes before none
being there. -/
def firstPresent (found : List (Except Errno Entry)) : Except Errno Entry :=
  (found.find? fun
    | .error .noSuchFile | .error .notDirectory => false
    | _ => true).getD (.error .noSuchFile)

/-- The entry that a call runs. -/
def called (top : Entry) (call : Call) : Except Errno Entry := do
  if call.file.contains Path.separator then
    let directory ← top.place [] call.directory
    return (← top.place directory.names call.file).entry
  else
    firstPresent (programDirectories.map fun directory =>
      top.locate (directory.append (Path.ofText call.file)))

/-- A word of this many bytes or more cannot be handed to a program. -/
def maxWord : Nat := 131072

/-- All words of a call, and its variables as they are handed over, are short enough. -/
def hasShortWords (call : Call) : Bool :=
  let settings : List Text := call.environment.map fun (name, value) => name ++ "=" ++ value
  (call.file :: call.arguments ++ settings).all (·.length < maxWord)

/-- The program that answers a call, and the call as it reaches it. -/
def answering (top : Entry) (call : Call) : Except Errno (Entry × Call) := do
  let e ← top.called call
  if !e.mayStart then throw .permissionDenied
  if !hasShortWords call then throw .argumentsTooLong
  top.handedOn maxScripts e call

/-- A call as it reaches the program that answers it, if one does. -/
def received (top : Entry) (call : Call) : Call :=
  match top.answering call with
  | .ok (_, call) => call
  | .error _ => call

/-- What comes of a call. -/
def reply (top : Entry) (call : Call) : Except Errno Reply :=
  (top.answering call).map fun (e, call) => e.answer call.arguments

end Entry

namespace Host

/-- The accounts that every machine has besides those of its users, and their homes. -/
def accounts : List (Text × Path) :=
  [("root", "/root"), ("daemon", "/usr/sbin"), ("bin", "/bin"), ("sys", "/dev"), ("sync", "/bin"),
   ("games", "/usr/games"), ("man", "/var/cache/man"), ("lp", "/var/spool/lpd"),
   ("mail", "/var/mail"), ("news", "/var/spool/news"), ("uucp", "/var/spool/uucp"),
   ("proxy", "/bin"), ("www-data", "/var/www"), ("backup", "/var/backups"), ("list", "/var/list"),
   ("nobody", "/nonexistent")]

/-- The machine with the tree `top` at its root, where the user's home is `home`. Its input stream is
read as a file is. -/
def ofEntry (top : Entry) (home : Path) : Host where
  entries path :=
    match top.locate path with
    | .ok (.directory entries) => entries.map fun (name, e) =>
        { name := name, kind := e.kind, isRunnable := top.isRunnable (path.child name) }
    | _ => []
  isDirectory path := (top.locate path).map fun e => e.kind == .directory
  contents path :=
    match top.locate path with
    | .ok (.file _ contents) => .ok contents
    | .ok (.program ..) => .ok []
    | .ok (.directory _) => .error .isDirectory
    | .ok _ => .error .noSuchFile
    | .error reason => .error reason
  home user :=
    match user with
    | none => some home
    | some name => accounts.lookup name
  reply _ call := top.reply call
  setup := { endsAtReturns := true }

end Host

end ConfigShell
