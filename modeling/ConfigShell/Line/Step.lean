import ConfigShell.Line.State
import ConfigShell.Line.Fault
/-!
# One byte of a line

`State.step` gives a byte its meaning in a state: the bytes it adds to the word, whether it ends
the word, and the state after it. Quotes follow word splitting as shells do it, adjacent quoted
and unquoted runs making one word; escapes are those of C, available outside quotes and between
double quotes.
-/

namespace ConfigShell.Line

/-! ## Classes of bytes -/

/-- Skipped between words. -/
def isBlank (b : UInt8) : Bool :=
  b == 0x20 || b == 0x09 || b == 0x0A || b == 0x0B || b == 0x0C || b == 0x0D

/-- Ends a word. A vertical tab is skipped between words but ends none. -/
def isBreak (b : UInt8) : Bool := b == 0x20 || b == 0x09 || b == 0x0A || b == 0x0C || b == 0x0D

def isOctalDigit (b : UInt8) : Bool := 0x30 ≤ b && b ≤ 0x37

/-- The value of a hexadecimal digit. -/
def hexValue? (b : UInt8) : Option Nat :=
  if 0x30 ≤ b && b ≤ 0x39 then some (b.toNat - 0x30)
  else if 0x61 ≤ b && b ≤ 0x66 then some (b.toNat - 0x61 + 10)
  else if 0x41 ≤ b && b ≤ 0x46 then some (b.toNat - 0x41 + 10)
  else none

def isHexDigit (b : UInt8) : Bool := (hexValue? b).isSome

/-- The byte written by a backslash and a single further byte. -/
def simpleEscape? : UInt8 → Option UInt8
  | 0x61 => some 0x07
  | 0x62 => some 0x08
  | 0x65 => some 0x1B
  | 0x66 => some 0x0C
  | 0x6E => some 0x0A
  | 0x72 => some 0x0D
  | 0x74 => some 0x09
  | 0x76 => some 0x0B
  | 0x5C => some 0x5C
  | 0x27 => some 0x27
  | 0x22 => some 0x22
  | 0x3F => some 0x3F
  | 0x20 => some 0x20
  | _ => none

/-- The form of hexadecimal escape a letter begins. -/
def hexForm? : UInt8 → Option HexForm
  | 0x78 => some .byte
  | 0x75 => some .short
  | 0x55 => some .long
  | _ => none

/-- The bytes after `\c` that name a control character. -/
def isControlName (b : UInt8) : Bool := 0x40 ≤ b && b ≤ 0x5F

/-! ## The step -/

/-- What one byte of a line does. -/
structure Step where
  state : State
  /-- The bytes it adds to the word. -/
  output : Text := []
  /-- It ends the word. -/
  isBoundary : Bool := false
  deriving Repr, DecidableEq

/-- Whether a number is a byte. -/
def isByte (n : Int) : Bool := 0 ≤ n && n < UInt8.size

/-- The byte that a completed escape of value `code` stands for. -/
def byteOutput (code : Int) : Except Fault Text :=
  if isByte code then .ok [UInt8.ofNat code.toNat] else .error .beyondByte

/-- The bytes that a completed hexadecimal escape of value `code` stands for. -/
def hexOutput (form : HexForm) (code : Int) : Except Fault Text :=
  match form with
  | .byte => byteOutput code
  | .short | .long =>
    if 0x10FFFF < code then .error (.beyondUnicode code.toNat)
    else if 0xD800 ≤ code && code ≤ 0xDFFF then .error (.surrogate code.toNat)
    else if code < 0 then .error (.ofNoCode code)
    else .ok (Text.ofCode code.toNat)

namespace State

/-- A byte outside escape sequences. -/
def stepPlain (s : State) (b : UInt8) : Step :=
  match s.quote with
  | .single =>
    if b == 0x27 then { state := { s with quote := .ended } }
    else { state := s, output := [b] }
  | .double =>
    if b == 0x22 then { state := { s with quote := .ended } }
    else if b == 0x5C then { state := { s with escape := .backslash } }
    else { state := s, output := [b] }
  | .none | .ended =>
    let s := { s with quote := .none }
    if b == 0x22 then { state := { s with quote := .double } }
    else if b == 0x27 then { state := { s with quote := .single } }
    else if b == 0x5C then { state := { s with escape := .backslash } }
    else if isBreak b then { state := { s with inWord := false }, isBoundary := true }
    else if b == 0x3D then { state := { s with equalsSeen := true }, output := [b] }
    else { state := s, output := [b] }

/-- A byte right after a backslash. -/
def stepBackslash (s : State) (b : UInt8) : Except Fault Step :=
  match simpleEscape? b with
  | some out => .ok { state := { s with escape := .ended }, output := [out] }
  | none =>
    if 0x30 ≤ b && b ≤ 0x33 then
      .ok { state := { s with escape := .octal 0, code := b.toNat - 0x30 } }
    else if b == 0x63 then .ok { state := { s with escape := .control, code := 0 } }
    else
      match hexForm? b with
      | some form =>
        .ok { state := { s with escape := .hex form ⟨0, form.digits_pos⟩, code := 0 } }
      | none => .error (.unknownEscape b)

/-- A byte where an octal digit is due. -/
def stepOctal (s : State) (seen : Fin 2) (b : UInt8) : Except Fault Step :=
  if isOctalDigit b then
    let code := s.code * 8 + (b.toNat - 0x30)
    if seen = 0 then .ok { state := { s with escape := .octal 1, code := code } }
    else
      (byteOutput code).map fun out =>
        { state := { s with escape := .ended, code := 0 }, output := out }
  else .error (.notOctal b.toNat)

/-- A byte where a hexadecimal digit is due. -/
def stepHex (s : State) (form : HexForm) (seen : Fin form.digits) (b : UInt8) :
    Except Fault Step :=
  match hexValue? b with
  | none => .error (.notHexadecimal b)
  | some v =>
    let code := s.code * 16 + v
    if h : seen.val + 1 < form.digits then
      .ok { state := { s with escape := .hex form ⟨seen.val + 1, h⟩, code := code } }
    else
      (hexOutput form code).map fun out =>
        { state := { s with escape := .ended, code := 0 }, output := out }

/-- A byte that names a control character. -/
def stepControl (s : State) (b : UInt8) : Except Fault Step :=
  if isControlName b then .ok { state := { s with escape := .ended }, output := [b ^^^ 0x40] }
  else .error (.notControl b.toNat)

/-- What a byte does in a state, or why it cannot stand there. -/
def step (s : State) (b : UInt8) : Except Fault Step :=
  match s.escape with
  | .none => .ok (s.stepPlain b)
  | .ended => .ok ({ s with escape := .none }.stepPlain b)
  | .backslash => s.stepBackslash b
  | .octal seen => s.stepOctal seen b
  | .hex form seen => s.stepHex form seen b
  | .control => s.stepControl b

/-- Why a number that is no byte cannot stand in a state. -/
def strayFault (s : State) (n : Int) : Fault :=
  match s.escape with
  | .none | .ended => .beyondByte
  | .backslash | .hex .. => .noByte
  | .octal _ => .ofShown .notOctal Fault.octalHead n
  | .control => .ofShown .notControl Fault.controlHead n

/-- What a number that is given as a byte does in a state, or why it cannot stand there. -/
def stepNumber (s : State) (n : Int) : Except Fault Step :=
  if isByte n then s.step (UInt8.ofNat n.toNat) else .error (s.strayFault n)

end State

end ConfigShell.Line
