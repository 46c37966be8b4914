import ConfigShell.Config.Moment
import ConfigShell.Config.Reader.Number
/-!
# Reading dates and times

Dates and times have a fixed number of digits in each part. What is not all there is not read: a
date before something that is no time is a date.
-/

namespace ConfigShell.Config.Reader

/-- A number of so many digits. -/
def fixed (count : Nat) (t : Text) : Option (Nat × Text) :=
  let ds := t.take count
  if ds.length = count && ds.all isDecimalDigit then some (number 10 ds, t.drop count) else none

/-- Two digits, a colon and two digits. -/
def minutes? (t : Text) : Option ((Nat × Nat) × Text) := do
  match ← fixed 2 t with
  | (hour, 0x3A :: t) =>
    let (minute, rest) ← fixed 2 t
    if hour < 24 && minute < 60 then some ((hour, minute), rest) else none
  | _ => none

/-- The fraction of a second, if there is one, in millionths; further digits are dropped. -/
def millionths (t : Text) : Nat × Text :=
  match t with
  | 0x2E :: rest =>
    let ds := rest.takeWhile isDecimalDigit
    if ds.isEmpty then (0, t)
    else (number 10 ((ds ++ List.replicate 6 0x30).take 6), rest.drop ds.length)
  | _ => (0, t)

/-- A time of day. -/
def clock? (t : Text) : Option (Clock × Text) := do
  match ← minutes? t with
  | ((hour, minute), 0x3A :: t) =>
    let (second, t) ← fixed 2 t
    let (fraction, rest) := millionths t
    if second < 60 then some (⟨hour, minute, second, fraction⟩, rest) else none
  | _ => none

/-- A day in the order of year, month and day. Whether its month has so many days is not looked
at. -/
def day? (t : Text) : Option (Day × Text) := do
  match ← fixed 4 t with
  | (year, 0x2D :: t) =>
    match ← fixed 2 t with
    | (month, 0x2D :: t) =>
      let (day, rest) ← fixed 2 t
      if 1 ≤ month && month ≤ 12 && 1 ≤ day && day ≤ 31 then some (⟨year, month, day⟩, rest)
      else none
    | _ => none
  | _ => none

/-- What the clock is ahead of universal time, if this is said. -/
def ahead (t : Text) : Option Int × Text :=
  match t with
  | [] => (none, [])
  | sign :: rest =>
    if sign == 0x5A || sign == 0x7A then (some 0, rest)
    else if sign == 0x2B || sign == 0x2D then
      match minutes? rest with
      | some ((hour, minute), rest) =>
        let size : Int := 60 * hour + minute
        (some (if sign == 0x2D then -size else size), rest)
      | none => (none, t)
    else (none, t)

/-- A date, a time, or a date with a time after a letter or a blank. -/
def moment? (t : Text) : Option (Moment × Text) :=
  match day? t with
  | none => (clock? t).map fun (c, rest) => (.time c, rest)
  | some (d, rest) =>
    match rest with
    | [] => some (.day d, rest)
    | b :: after =>
      match if b == 0x54 || b == 0x74 || b == 0x20 then clock? after else none with
      | none => some (.day d, rest)
      | some (c, rest) =>
        let (ahead, rest) := ahead rest
        some (.both d c ahead, rest)

end ConfigShell.Config.Reader
