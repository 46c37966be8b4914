import ConfigShell.Line.Lexed
import ConfigShell.Text.Replaced
/-!
# Places in a line

A buffer put together from several typed lines holds line feeds; a place is reported within the
physical line it falls on, by column and by the line itself with carets below the part meant.
-/

namespace ConfigShell.Line

/-- Where the physical line around an offset begins. -/
def physicalStart (source : Text) (offset : Int) : Nat :=
  let before := Signed.take offset source
  before.length - (before.reverse.takeWhile (· != Text.newline)).length

/-- The physical line around an offset. -/
def physicalLine (source : Text) (offset : Int) : Text :=
  (source.drop (physicalStart source offset)).takeWhile (· != Text.newline)

/-- The column of an offset within its physical line. -/
def columnAt (source : Text) (offset : Int) : Nat :=
  Text.column (physicalLine source offset) (offset - physicalStart source offset)

/-- A byte `n` times. -/
def run (b : UInt8) (n : Nat) : Text := List.replicate n b

/-- The physical line and below it carets under `breadth` characters from an offset on, at least
one and none beyond the end of the line. -/
def context (source : Text) (offset : Int) (breadth : Nat) : Text :=
  let shown := Text.trimRight 0x0D (physicalLine source offset)
  let column := columnAt source offset
  let room := Text.width shown + 1 - column
  let carets := max 1 (min breadth room)
  "  | " ++ shown ++ "\n  | " ++ run 0x20 (column - 1) ++ run 0x5E carets

/-- The place as a message ends with it. -/
def place (column line : Option Int) : Text :=
  match column, line with
  | none, _ => []
  | some c, none => " (column " ++ Text.integer c ++ ")"
  | some c, some l => " (line " ++ Text.integer l ++ " column " ++ Text.integer c ++ ")"

namespace LexError

/-- The error with a wording of one's own, at an offset of the source. -/
def ofMessage (message : Text) (offset : Int) (source : Text) : LexError :=
  ⟨.described message, offset, source⟩

/-- The column of the fault. -/
def column (e : LexError) : Nat := columnAt e.source e.offset

/-- What stands where the fault is. -/
def subject (e : LexError) : Text :=
  if e.offset < e.source.length then
    let byte := Signed.take (e.offset + 1) e.source
    "'" ++ Text.replaceStrays (byte.drop (Signed.index e.source.length e.offset)) ++ "'"
  else "end of line"

/-- The report of a fault, in the line of the given number if it has one. -/
def report (e : LexError) (line : Option Int) : Text :=
  "syntax error at " ++ e.subject ++ ": " ++ e.fault.message ++ place (some e.column) line
    ++ "\n" ++ context e.source e.offset 1

end LexError

end ConfigShell.Line
