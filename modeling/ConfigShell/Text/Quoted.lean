import ConfigShell.Text.Printable
/-!
# Quoted texts

The literal by which a message shows a text: between single quotes, or between double quotes
when that saves escaping, with every character that cannot be printed written as an escape.
-/

namespace ConfigShell.Text

/-- The quote around `t`: the double one only for a text with single and no double quotes. -/
def quoteMark (t : Text) : UInt8 :=
  if t.contains 0x27 && !t.contains 0x22 then 0x22 else 0x27

/-- A backslash before an ASCII letter. -/
def backslashed (b : UInt8) : Text := [0x5C, b]

/-- One character inside a literal that is closed by `mark`. -/
def quotedCharacter (mark : UInt8) (character : Text) : Text :=
  let n := code character
  if character == [mark] || character == [0x5C] then backslashed n.toUInt8
  else if n == 0x09 then backslashed 0x74
  else if n == 0x0A then backslashed 0x6E
  else if n == 0x0D then backslashed 0x72
  else if !isStray character && isPrintable n then character
  else if n ≤ 0xFF then ofString "\\x" ++ hexadecimal false 2 n
  else if n ≤ 0xFFFF then ofString "\\u" ++ hexadecimal false 4 n
  else ofString "\\U" ++ hexadecimal false 8 n

/-- The literal of a text. -/
def quoted (t : Text) : Text :=
  let mark := quoteMark t
  mark :: (characters t).flatMap (quotedCharacter mark) ++ [mark]

/-- The literal of a list, given the literals of its members. -/
def quotedList (members : List Text) : Text :=
  ofString "[" ++ join (ofString ", ") members ++ ofString "]"

end ConfigShell.Text
