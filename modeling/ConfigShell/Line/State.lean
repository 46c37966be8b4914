import ConfigShell.Text.Basic
/-!
# The state of reading a line

Everything needed to give the next byte of a line its meaning: how far an escape sequence has
come, which quotes are open, and whether the word being read has had its equals sign. The state
left at the end of a line is enough to go on with the next one.
-/

namespace ConfigShell.Line

/-- The escapes that name a byte or a code point in hexadecimal. -/
inductive HexForm where
  /-- Two digits after `x`: one byte. -/
  | byte
  /-- Four digits after `u`: a code point. -/
  | short
  /-- Eight digits after `U`: a code point. -/
  | long
  deriving Repr, DecidableEq

/-- How many digits the escape has. -/
def HexForm.digits : HexForm → Nat
  | .byte => 2
  | .short => 4
  | .long => 8

theorem HexForm.digits_pos (form : HexForm) : 0 < form.digits := by cases form <;> decide

/-- How far an escape sequence has come. -/
inductive Escape where
  /-- No escape. -/
  | none
  /-- The byte just read completed one. -/
  | ended
  /-- A backslash has been read. -/
  | backslash
  /-- The first octal digit and `seen` more have been read. -/
  | octal (seen : Fin 2)
  /-- The letter of the form and `seen` digits have been read. -/
  | hex (form : HexForm) (seen : Fin form.digits)
  /-- The `c` of a control character has been read. -/
  | control
  deriving Repr, DecidableEq

/-- Where the reading stands with respect to quotes. -/
inductive Quote where
  /-- Outside. -/
  | none
  /-- The byte just read closed a quoted run. -/
  | ended
  | single
  | double
  deriving Repr, DecidableEq

/-- The state between two bytes. -/
structure State where
  escape : Escape := .none
  quote : Quote := .none
  /-- A word has begun and has not been ended by a break. -/
  inWord : Bool := false
  /-- The word has had an equals sign outside quotes and escapes. -/
  equalsSeen : Bool := false
  /-- The value read so far by an unfinished numeric escape. -/
  code : Int := 0
  deriving Repr, DecidableEq

namespace Escape

/-- An escape sequence is under way. -/
def isOpen : Escape → Bool
  | .none | .ended => false
  | _ => true

end Escape

namespace State

/-- The last byte belongs to an escape sequence. -/
def escaped (s : State) : Bool := s.escape != .none

/-- The last byte belongs to a quoted run, its quotes included. -/
def quoted (s : State) : Bool := s.quote != .none

/-- A quote or an escape sequence is unfinished. -/
def isOpen (s : State) : Bool := s.escape.isOpen || s.quote == .single || s.quote == .double

end State

end ConfigShell.Line
