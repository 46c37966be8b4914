import ConfigShell.Completion
import ConfigShell.Editor.Diagnostics
/-!
# Completion in an editor

What may be typed at a place in a script, given the containers that the lines before it lead to.
A place may be counted from the end of the script or of the line, but an editor counts lines and
characters from zero up to a limit; where there is something to offer, a place out of this range
is refused.
-/

namespace ConfigShell

namespace Editor

/-- A completion an editor offers. -/
structure Item where
  label : Text
  category : Category
  newText : Text
  range : Range
  deriving Repr, DecidableEq

/-- The highest number of a line or a character. -/
def maxPosition : Nat := 2147483647

/-- Why there is nothing to say about a place. -/
inductive PlaceFault where
  /-- The number of the line is out of range. -/
  | line (number : Int)
  /-- The number of the character is out of range. -/
  | character (number : Int)
  /-- Counted from the end there is no such line. -/
  | noLine
  deriving Repr, DecidableEq

/-- The wording of a fault. -/
def PlaceFault.message (f : PlaceFault) : Text :=
  let outOfRange (name : Text) (number : Int) : Text :=
    "Position." ++ name ++ " should be in range [0:" ++ Text.decimal maxPosition ++ "], but was "
      ++ Text.integer number ++ "."
  match f with
  | line number => outOfRange "line" number
  | character number => outOfRange "character" number
  | noLine => "list index out of range"

/-- Whether a number of a line or a character is in range. -/
def isPosition (n : Int) : Bool := 0 ≤ n && n ≤ maxPosition

/-- What is wrong with a place. The line is looked at first. -/
def placeFault? (line character : Int) : Option PlaceFault :=
  if !isPosition line then some (.line line)
  else if !isPosition character then some (.character character)
  else none

/-- The items for a place, unless there are any and the place is at fault. -/
def offer (line character : Int) (items : List Item) : Except PlaceFault (List Item) :=
  match items, placeFault? line character with
  | _ :: _, some f => .error f
  | items, _ => .ok items

end Editor

namespace Session

/-- What may be typed at a character of a line, both counted from zero, and the session that the
lines before it lead to. A line after the last one is empty. -/
def completeAt (site : Site) (s : Session) (lines : List Text) (line character : Int) :
    Shell (Except Editor.PlaceFault (List Editor.Item) × Session) := do
  let (_, s) ← s.diagnose site (Signed.take line lines)
  if line < -lines.length then return (.error .noLine, s)
  let text := Text.takeCharacters character ((Signed.get? line lines).getD [])
  match Line.lex text with
  | .error _ => return (.ok [], s)
  | .ok lexed =>
    match ← s.complete site lexed with
    | .error _ => return (.ok [], s)
    | .ok resolution =>
      return (Editor.offer line character (resolution.completions.map fun c =>
        let start := Text.column lexed.source (resolution.replaceFrom lexed c) - 1
        { label := c.shown, category := c.category, newText := c.text
          range := ⟨line.toNat, start, character.toNat⟩ }), s)

end Session

end ConfigShell
