import ConfigShell.Text.Lines
import ConfigShell.Text.Replaced
/-!
# The history

What has been typed is kept in a file by the library that the prompt is built on; a `FileHistory`
is what the shell asks of this library. The shell itself takes each distinct entry once, the newest
first, and no more of them than a limit allows. `FileHistory.plain` is a library to try it with.
-/

namespace ConfigShell

/-- What a library does with a history file. A file that does not exist is none. -/
structure FileHistory where
  /-- What the file holds after an entry has been stored in it at a time. -/
  store (time : Text) (file : Option Text) (entry : Text) : Text
  /-- The entries of the file, in the order in which they are loaded. -/
  load (file : Option Text) : List Text

namespace History

/-- The most entries that are read. -/
def maxEntries : Nat := 1000

/-- The first of each distinct text, in order, until there are `limit`; one is given in any
case. -/
def distinctUpTo (limit : Int) : List Text → List Text → List Text
  | _, [] => []
  | seen, entry :: rest =>
    if seen.contains entry then distinctUpTo limit seen rest
    else
      entry :: if limit ≤ (seen.length : Int) + 1 then [] else distinctUpTo limit (entry :: seen) rest

end History

/-- The distinct entries of a history file, in the order in which the library loads them. -/
def FileHistory.loadDistinct (library : FileHistory) (file : Option Text)
    (limit : Int := History.maxEntries) : List Text :=
  History.distinctUpTo limit [] (library.load file)

/-! ## A library -/

namespace History

/-- The mark before a line of an entry. -/
def mark : UInt8 := 0x2B

/-- How an entry is written at the end of a history file: an empty line, a line with the time it
was made at, and its own lines, each after a mark. -/
def store (time entry : Text) : Text :=
  "\n# " ++ time ++ "\n"
    ++ (Text.splitOn Text.newline (Text.markStrays entry)).flatMap fun line =>
      mark :: line ++ [Text.newline]

/-- The entries read so far and the lines of the one under way. -/
structure Loading where
  entries : List Text := []
  lines : List Text := []

/-- Ends the entry under way, if it has any line; the last character, a line end, is dropped. -/
def Loading.endEntry (l : Loading) : Loading :=
  match l.lines with
  | [] => l
  | _ :: _ =>
    let joined := Text.characters l.lines.reverse.flatten
    { entries := joined.dropLast.flatten :: l.entries, lines := [] }

/-- Takes one line of the file. -/
def Loading.takeLine (l : Loading) (line : Text) : Loading :=
  match Text.replaceStrays line with
  | [] => l.endEntry
  | b :: rest => if b == mark then { l with lines := rest :: l.lines } else l.endEntry

/-- All entries of a history file, the newest first. -/
def entries (file : Text) : List Text :=
  ((Text.linesKeepingEnds file).foldl Loading.takeLine {}).endEntry.entries

end History

/-- A library that keeps its files in this form. -/
def FileHistory.plain : FileHistory where
  store time file entry := file.getD [] ++ History.store time entry
  load file := (file.map History.entries).getD []

/-- The distinct entries of a file of this form, the newest first. -/
def History.load (file : Text) (limit : Int := maxEntries) : List Text :=
  FileHistory.plain.loadDistinct (some file) limit

end ConfigShell
