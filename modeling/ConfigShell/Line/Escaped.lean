import ConfigShell.Text.Characters
/-!
# Writing a word

Any byte string can be written as one word of a line. The written form is for reading by people
too: what can stand as it is does, controls get their letter or two hexadecimal digits, and only
bytes outside well-formed UTF-8 are spelt out.
-/

namespace ConfigShell.Line

/-- The letter of a control byte that has one. -/
def escapeLetter? : UInt8 → Option UInt8
  | 0x07 => some 0x61
  | 0x08 => some 0x62
  | 0x1B => some 0x65
  | 0x0C => some 0x66
  | 0x0A => some 0x6E
  | 0x0D => some 0x72
  | 0x09 => some 0x74
  | 0x0B => some 0x76
  | _ => none

/-- The bytes that stand for themselves after a backslash: blank, backslash and the quotes. -/
def takesBackslash (b : UInt8) : Bool := b == 0x20 || b == 0x5C || b == 0x27 || b == 0x22

/-- A byte by its two hexadecimal digits. -/
def spellByte (b : UInt8) : Text := "\\x" ++ Text.hexadecimal false 2 b.toNat

/-- One character of a word. -/
def escapeCharacter (character : Text) : Text :=
  match character with
  | [b] =>
    if takesBackslash b then [0x5C, b]
    else
      match escapeLetter? b with
      | some letter => [0x5C, letter]
      | none => if b < 0x20 || b == 0x7F || 0x80 ≤ b then spellByte b else [b]
  | _ => character

/-- The first character of a word: a plain `#` would begin a comment and a plain slash would
start at the top. -/
def escapeFirst (character : Text) : Text :=
  if character == [0x23] || character == [0x2F] then character.flatMap spellByte
  else escapeCharacter character

/-- A word as it is written in a line. -/
def escapeWord (word : Text) : Text :=
  match Text.characters word with
  | [] => "''"
  | first :: rest => escapeFirst first ++ rest.flatMap escapeCharacter

end ConfigShell.Line
