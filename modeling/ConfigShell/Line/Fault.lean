import ConfigShell.Text.Characters
/-!
# What can be wrong with a line
-/

namespace ConfigShell.Line

/-- Why a line cannot be read. -/
inductive Fault where
  | unknownEscape (byte : UInt8)
  /-- The character with this code is no octal digit. -/
  | notOctal (code : Nat)
  | notHexadecimal (byte : UInt8)
  /-- The character with this code names no control character. -/
  | notControl (code : Nat)
  /-- A number that is to be written as a byte is none. -/
  | beyondByte
  /-- A number that is to be looked up among bytes is none. -/
  | noByte
  /-- A number that is to be written as a character is no code. -/
  | noCharacter
  /-- A number that is to be written as a character does not even fit into 32 bits. -/
  | beyondWord
  /-- The character with this code stands in no text; it would have to be shown at this place of
  the wording. -/
  | unwritable (code position : Nat)
  | beyondUnicode (code : Nat)
  | surrogate (code : Nat)
  | openDoubleQuote
  | openSingleQuote
  | openEscape
  /-- A fault that others give the wording of. -/
  | described (message : Text)
  deriving Repr, DecidableEq

namespace Fault

/-- Whether a number is out of the range it has to be in. Reading never comes to this by itself:
it was given a number that is no byte, or a state whose value no escape can have. -/
def isOutOfRange : Fault → Bool
  | beyondByte | noByte | noCharacter | beyondWord | unwritable _ _ => true
  | _ => false

/-- Why a number is no code of a character. -/
def ofNoCode (n : Int) : Fault :=
  if -0x80000000 ≤ n && n < 0x80000000 then noCharacter else beyondWord

/-- The wording in front of what is no octal digit. -/
def octalHead : Text := "invalid octal digit '"

/-- The wording in front of what names no control character. -/
def controlHead : Text := "invalid control character '"

/-- The fault of the character that a number is the code of, which is to be shown after `head`. -/
def ofShown (fault : Nat → Fault) (head : Text) (n : Int) : Fault :=
  if 0 ≤ n && n ≤ 0x10FFFF then
    if Text.isCode n.toNat then fault n.toNat else unwritable n.toNat head.length
  else ofNoCode n

/-- The wording of a fault. -/
def message : Fault → Text
  | unknownEscape b => "invalid escape sequence '\\" ++ Text.ofCode b.toNat ++ "'"
  | notOctal n => octalHead ++ Text.ofCharacter n ++ "' in escape sequence"
  | notHexadecimal b => "invalid hex digit '" ++ Text.ofCode b.toNat ++ "' in escape sequence"
  | notControl n => controlHead ++ Text.ofCharacter n ++ "' in escape sequence"
  | beyondByte => "bytes must be in range(0, 256)"
  | noByte => "byte must be in range(0, 256)"
  | noCharacter => "chr() arg not in range(0x110000)"
  | beyondWord => "number too large for a character"
  | unwritable n position =>
    "'utf-8' codec can't encode character '\\u" ++ Text.hexadecimal false 4 n ++ "' in position "
      ++ Text.decimal position ++ ": surrogates not allowed"
  | beyondUnicode n => "Unicode codepoint U+" ++ Text.hexadecimal true 1 n ++ " is out of range"
  | surrogate n => "Unicode codepoint U+" ++ Text.hexadecimal true 4 n ++ " is a surrogate"
  | openDoubleQuote => "incomplete input: unterminated double quote"
  | openSingleQuote => "incomplete input: unterminated single quote"
  | openEscape => "incomplete input: unfinished escape sequence"
  | described m => m

end Fault

end ConfigShell.Line
