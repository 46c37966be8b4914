import ConfigShell.Text.Basic
/-!
# Readers of a configuration file

A reader takes the text from where it stands and gives what it has read and the rest of the text.
Here are the faults that it may find instead, the classes of bytes, and the blanks and comments
that mean nothing.
-/

namespace ConfigShell.Config

/-- Why a file is no configuration. -/
inductive FormatFault where
  | notUtf8
  | malformed
  /-- A whole number has too many decimal digits. -/
  | tooLong (digits : Nat)
  /-- Values are nested too deeply. -/
  | tooDeep
  deriving Repr, DecidableEq

/-- Reads something from the front of a text. -/
abbrev Reader (α : Type) := Text → Except FormatFault (α × Text)

namespace Reader

/-- What has to be there. -/
def require : Option α → Except FormatFault α
  | some a => .ok a
  | none => .error .malformed

/-- One level further down, where `room` levels are left. -/
def deeper : Nat → Except FormatFault Nat
  | 0 => .error .tooDeep
  | room + 1 => .ok room

/-! ## Digits -/

/-- The value of a hexadecimal digit. -/
def hexDigit? (b : UInt8) : Option Nat :=
  if 0x30 ≤ b && b ≤ 0x39 then some (b.toNat - 0x30)
  else if 0x61 ≤ b && b ≤ 0x66 then some (b.toNat - 0x57)
  else if 0x41 ≤ b && b ≤ 0x46 then some (b.toNat - 0x37)
  else none

def isDecimalDigit (b : UInt8) : Bool := 0x30 ≤ b && b ≤ 0x39

/-! ## Blanks and comments -/

/-- Blanks within a line. -/
def isSpace (b : UInt8) : Bool := b == 0x20 || b == 0x09

/-- Control characters, which may stand nowhere but for a few exceptions. -/
def isControl (b : UInt8) : Bool := b < 0x20 || b == 0x7F

/-- A control character that may not stand within a line. -/
def isForbidden (b : UInt8) : Bool := isControl b && b != 0x09

/-- A control character that may not stand in a text of several lines. -/
def isForbiddenInLines (b : UInt8) : Bool := isForbidden b && b != Text.newline

def skipSpaces (t : Text) : Text := t.dropWhile isSpace

/-- Skips a comment, if there is one, up to the end of its line. -/
def skipComment (t : Text) : Except FormatFault Text :=
  match t with
  | 0x23 :: rest =>
    if (rest.takeWhile (· != Text.newline)).any isForbidden then .error .malformed
    else .ok (rest.dropWhile (· != Text.newline))
  | _ => .ok t

/-- Skips blanks, line ends and comments; `limit` bounds the lines skipped. -/
def skipFiller : Nat → Text → Except FormatFault Text
  | 0, t => .ok t
  | limit + 1, t =>
    let t := t.dropWhile fun b => isSpace b || b == Text.newline
    if t.head? == some 0x23 then (skipComment t).bind (skipFiller limit) else .ok t

end Reader

end ConfigShell.Config
