import ConfigShell.Text.Basic
/-!
# The first line of a script

A file of text can be run if its first line names, after `#!`, what it is to be handed to. Only so
many bytes of the file are looked at. What is looked at of a short file is filled up with zero
bytes, and a zero byte ends a name or a word.
-/

namespace ConfigShell

/-- What a script is handed to: a file, and a word that goes before the others if there is one. -/
structure Interpreter where
  file : Text
  word : Option Text := none
  deriving Repr, DecidableEq

namespace Interpreter

/-- How many bytes after the `#!` of a script are looked at. -/
def maxHead : Nat := 254

/-- Blanks in the first line of a script. -/
def isGap (b : UInt8) : Bool := b == 0x20 || b == 0x09

/-- The first line of a script, of which `shown` is what is looked at after `#!`. Of a line that
is not seen to end all but the last byte is taken, if the name in it is seen to end. -/
def firstLine? (shown : Text) : Option Text :=
  let line := shown.takeWhile fun b => b != Text.newline && b != 0
  if shown[line.length]? == some Text.newline then some line
  else if (shown.dropWhile isGap).any fun b => isGap b || b == 0 then some shown.dropLast
  else none

/-- What a first line names: all after the name and the blanks that follow it is one word. -/
def ofLine? (line : Text) : Option Interpreter :=
  match (line.reverse.dropWhile isGap).reverse.dropWhile isGap with
  | [] => none
  | b :: rest =>
    let file := (b :: rest).takeWhile fun b => !isGap b && b != 0
    let more := (b :: rest).drop file.length
    let word := (more.dropWhile isGap).takeWhile (· != 0)
    some { file := file, word := if more.head?.any isGap then some word else none }

/-- What the script with these contents is handed to, if it says so. -/
def ofScript? (contents : Text) : Option Interpreter :=
  match contents with
  | 0x23 :: 0x21 :: rest =>
    (firstLine? ((rest ++ List.replicate maxHead 0).take maxHead)).bind ofLine?
  | _ => none

end Interpreter

end ConfigShell
