import ConfigShell.Host.Basic
/-!
# Entries of a machine

A whole machine written down as data: directories, files, links, pipes, and programs that answer
by fixed rules. A written path is followed through it name by name, and link by link; what it
leads to has a place, which is a path without links.
-/

namespace ConfigShell

/-- One answer of a program, and the arguments it is for. -/
structure Rule where
  /-- The words after the first argument. -/
  arguments : Option (List Text) := none
  /-- The final words. -/
  last : Option (List Text) := none
  reply : Reply
  deriving Repr, DecidableEq

namespace Rule

/-- Whether the rule is for these words after the first argument. A rule that names no words is
for all. -/
def covers (r : Rule) (words : List Text) : Bool :=
  match r.arguments, r.last with
  | none, none => true
  | arguments, last => arguments.any (· == words) || last.any (·.isSuffixOf words)

end Rule

/-- A reply as the machine passes it on: it keeps eight bits of an exit code. -/
def Reply.passedOn (r : Reply) : Reply :=
  match r.ending with
  | .exited code => { r with ending := .exited (code % 256) }
  | .killed _ => r

/-- What may stand in a directory. -/
inductive Entry where
  | directory (entries : List (Text × Entry))
  /-- A program: its answers to `-c` and to `--`. -/
  | program (isRunnable : Bool) (probe execute : List Rule)
  | file (isRunnable : Bool) (contents : Text)
  | link (target : Text)
  | pipe

namespace Entry

/-- The entry below `e` under the names in turn, links not followed. -/
def find? (e : Entry) : List Text → Option Entry
  | [] => some e
  | name :: rest =>
    match e with
    | directory entries => (entries.lookup name).bind (·.find? rest)
    | _ => none

/-- Puts an entry at a place below `e`; missing directories are made on the way. -/
def insert (e : Entry) : List Text → Entry → Entry
  | [], new => new
  | name :: rest, new =>
    let entries := match e with
      | directory entries => entries
      | _ => []
    let below := ((entries.lookup name).getD (directory [])).insert rest new
    directory (entries.filter (·.1 != name) ++ [(name, below)])

/-- Takes away the entry at a place below `e`. -/
def erase (e : Entry) : List Text → Entry
  | [] => e
  | [name] =>
    match e with
    | directory entries => directory (entries.filter (·.1 != name))
    | _ => e
  | name :: rest =>
    match e with
    | directory entries =>
      directory (entries.map fun (n, below) => if n == name then (n, below.erase rest) else (n, below))
    | _ => e

/-- What every machine has: directories, a file that never holds anything, and two programs, of
which only their being there is told. -/
def skeleton : Entry :=
  let put (e : Entry) (top : Entry) (place : Path) : Entry := top.insert place.parts e
  let directories : List Path :=
    ["/bin", "/dev", "/etc", "/home", "/root", "/tmp", "/usr/bin", "/usr/libexec", "/var/tmp"]
  let programs : List Path := ["/bin/sh", "/usr/bin/env"]
  let top := directories.foldl (put (directory [])) (directory [])
  put (file false []) (programs.foldl (put (file true [])) top) "/dev/null"

end Entry

/-! ## Following paths -/

/-- The most bytes of a name. -/
def maxName : Nat := 255

/-- A written path has fewer bytes than this. -/
def maxPath : Nat := 4096

/-- The most links that are followed for one path. -/
def maxLinks : Nat := 40

/-- Where a path leads: an entry, and its names from the top, none of them a link. -/
structure Place where
  names : List Text
  entry : Entry

/-- How far a path leads without following a link. -/
inductive Descent where
  | arrived (place : Place)
  /-- At a link: the directory and the components to go on with. -/
  | atLink (names parts : List Text)

namespace Entry

/-- The name of the directory above. -/
def parentName : Text := ".."

/-- The name by which a directory is called within itself. -/
def ownName : Text := "."

/-- The components of a written path as a machine goes through them. Slashes in a row are as good
as one, but a slash at the end asks for a directory, as a dot does. -/
def steps (written : Text) : List Text :=
  let names := (Text.splitOn Path.separator written).filter (!·.isEmpty)
  if written.getLast? == some Path.separator then names ++ [ownName] else names

/-- Where a written path starts: at the top if it begins with a slash, and else at the directory
with the names `here`. -/
def origin (here : List Text) (written : Text) : List Text :=
  if written.head? == some Path.separator then [] else here

/-- Goes down `parts` from the directory with the names `here`, as far as the first link. -/
def descend (top : Entry) (here : List Text) : List Text → Except Errno Descent
  | [] =>
    match top.find? here with
    | some e => .ok (.arrived ⟨here, e⟩)
    | none => .error .noSuchFile
  | part :: rest =>
    match top.find? here with
    | some (directory entries) =>
      if part == ownName then top.descend here rest
      else if part == parentName then top.descend here.dropLast rest
      else
        match entries.lookup part with
        | some (link target) => .ok (.atLink (origin here target) (steps target ++ rest))
        | some _ => top.descend (here ++ [part]) rest
        | none => .error (if maxName < part.length then .nameTooLong else .noSuchFile)
    | some _ => .error .notDirectory
    | none => .error .noSuchFile

/-- Follows `parts` from the directory with the names `here`, and at most so many links. -/
def follow (top : Entry) (links : Nat) (here parts : List Text) : Except Errno Place :=
  match top.descend here parts with
  | .error reason => .error reason
  | .ok (.arrived place) => .ok place
  | .ok (.atLink here parts) =>
    match links with
    | 0 => .error .tooManyLinks
    | links + 1 => top.follow links here parts

/-- Where a written path leads; a relative one starts at the directory with the names `here`. -/
def place (top : Entry) (here : List Text) (written : Text) : Except Errno Place :=
  if maxPath ≤ written.length then .error .nameTooLong
  else top.follow maxLinks (origin here written) (steps written)

/-- What a path leads to; a relative one starts at the top. -/
def locate (top : Entry) (path : Path) : Except Errno Entry := (top.place [] path.toText).map (·.entry)

/-- The path of what a path leads to, with no link in it; one that leads nowhere is left. -/
def realPath (top : Entry) (path : Path) : Path :=
  match top.place [] path.toText with
  | .ok place => ⟨[Path.separator], place.names⟩
  | .error _ => path

/-- Whether what a path leads to may be read and run. -/
def isRunnable (top : Entry) (path : Path) : Bool :=
  match top.locate path with
  | .ok (directory _) => true
  | .ok (program runnable _ _) | .ok (file runnable _) => runnable
  | _ => false

/-- What an entry is, links not followed. -/
def kind : Entry → EntryKind
  | directory _ => .directory
  | program .. | file .. => .file
  | link _ => .link
  | pipe => .other

end Entry

end ConfigShell
