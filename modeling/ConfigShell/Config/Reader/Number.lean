import ConfigShell.Config.Reader.Basic
import ConfigShell.Config.Value
import ConfigShell.Text.Digit
/-!
# Reading numbers

Whole numbers in base ten, sixteen, eight or two, and real numbers with a fraction, an exponent or
both; single underscores may stand between digits. A whole number in base ten may not be too long.
-/

namespace ConfigShell.Config.Reader

/-- Digits with single underscores between them: the digits, and the rest after the last. -/
def digitRun (isDigit : UInt8 → Bool) : Text → Text × Text
  | [] => ([], [])
  | b :: t =>
    if isDigit b then
      let (more, rest) := digitRun isDigit t
      (b :: more, rest)
    else
      match b, t with
      | 0x5F, c :: _ =>
        if isDigit c then digitRun isDigit t else ([], b :: t)
      | _, _ => ([], b :: t)

/-- A run of digits that begins with a digit. -/
def digits (isDigit : UInt8 → Bool) (t : Text) : Option (Text × Text) :=
  if t.head?.any isDigit then some (digitRun isDigit t) else none

/-- The number that digits write in a base. -/
def number (base : Nat) (ds : Text) : Nat :=
  ds.foldl (fun n b => base * n + (hexDigit? b).getD 0) 0

/-- The fraction after a whole number, if there is one. -/
def fraction (t : Text) : Text × Text :=
  match t with
  | 0x2E :: rest => (digits isDecimalDigit rest).getD ([], t)
  | _ => ([], t)

/-- The exponent after a number, if there is one. -/
def exponent (t : Text) : Option (Int × Text) :=
  match t with
  | e :: rest =>
    if e == 0x65 || e == 0x45 then
      let (isNegative, rest) := match rest with
        | 0x2D :: rest => (true, rest)
        | 0x2B :: rest => (false, rest)
        | _ => (false, rest)
      (digits isDecimalDigit rest).map fun (ds, rest) =>
        (if isNegative then -(number 10 ds : Int) else (number 10 ds : Int), rest)
    else none
  | [] => none

/-- The whole part of a decimal number: a zero alone, or digits of which the first is none. -/
def wholePart (t : Text) : Option (Text × Text) :=
  match t with
  | 0x30 :: rest => some ([0x30], rest)
  | _ => digits isDecimalDigit t

/-- What a number is, given its sign, its whole part and what follows that. Only a whole number
may be too long. -/
def decimal (isNegative : Bool) (whole t : Text) : Except FormatFault (Value × Text) :=
  let (places, afterPlaces) := fraction t
  match places, exponent afterPlaces with
  | [], none =>
    let n := number 10 whole
    if Text.maxNumeralDigits < whole.length then .error (.tooLong whole.length)
    else .ok (.integer (if isNegative then -(n : Int) else n), t)
  | _, power =>
    let (e, rest) := power.getD (0, afterPlaces)
    .ok (.real (Binary.ofDecimal isNegative (number 10 (whole ++ places)) (e - places.length)), rest)

/-- A number that is written as a word. -/
def special (isNegative : Bool) (t : Text) : Except FormatFault (Value × Text) :=
  if (Text.ofString "inf").isPrefixOf t then .ok (.real (.infinite isNegative), t.drop 3)
  else if (Text.ofString "nan").isPrefixOf t then .ok (.real .notANumber, t.drop 3)
  else .error .malformed

/-- A number without its sign. -/
def unsigned (isNegative : Bool) (t : Text) : Except FormatFault (Value × Text) :=
  match wholePart t with
  | some (whole, rest) => decimal isNegative whole rest
  | none => special isNegative t

/-- A number. -/
def numeric : Reader Value := fun t =>
  let based (base : Nat) (isDigit : UInt8 → Bool) (rest : Text) : Except FormatFault (Value × Text) :=
    match digits isDigit rest with
    | some (ds, rest) => .ok (.integer (number base ds), rest)
    | none => unsigned false t
  match t with
  | 0x30 :: 0x78 :: rest => based 16 (fun b => (hexDigit? b).isSome) rest
  | 0x30 :: 0x6F :: rest => based 8 (fun b => 0x30 ≤ b && b ≤ 0x37) rest
  | 0x30 :: 0x62 :: rest => based 2 (fun b => b == 0x30 || b == 0x31) rest
  | 0x2D :: rest => unsigned true rest
  | 0x2B :: rest => unsigned false rest
  | _ => unsigned false t

end ConfigShell.Config.Reader
