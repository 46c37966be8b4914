import ConfigShell.Text.Basic
/-!
# Dates and times

A value of a configuration file may be a day of the calendar, a time of day, or a time on a day;
the last may say by how many minutes the clock is ahead of universal time. A message shows it by
its parts, of which the last ones are left out where they are zero.
-/

namespace ConfigShell.Config

/-- A day by its numbers. -/
structure Day where
  year : Nat
  month : Nat
  day : Nat
  deriving Repr, DecidableEq

namespace Day

/-- Whether February has a day more. -/
def isLeapYear (year : Nat) : Bool := year % 4 == 0 && (year % 100 != 0 || year % 400 == 0)

/-- How many days a month has. -/
def monthLength (year month : Nat) : Nat :=
  match month with
  | 2 => if isLeapYear year then 29 else 28
  | 4 | 6 | 9 | 11 => 30
  | _ => 31

/-- Whether the calendar, which begins with the year one, has the day. -/
def isValid (d : Day) : Bool :=
  1 ≤ d.year && 1 ≤ d.month && d.month ≤ 12 && 1 ≤ d.day && d.day ≤ monthLength d.year d.month

end Day

/-- A time of day, down to the millionth of a second. -/
structure Clock where
  hour : Nat
  minute : Nat
  second : Nat
  millionths : Nat := 0
  deriving Repr, DecidableEq

/-- A date, a time, or both. -/
inductive Moment where
  | day (d : Day)
  | time (c : Clock)
  /-- A time on a day; `ahead` is what the clock is ahead of universal time, in minutes. -/
  | both (d : Day) (c : Clock) (ahead : Option Int)
  deriving Repr, DecidableEq

namespace Moment

/-- The parts of a day. -/
def dayParts (d : Day) : List Text := [d.year, d.month, d.day].map Text.decimal

/-- The parts of a time that are shown. -/
def clockParts (c : Clock) : List Text :=
  let fine := if c.millionths != 0 then [c.second, c.millionths]
    else if c.second != 0 then [c.second] else []
  ([c.hour, c.minute] ++ fine).map Text.decimal

/-- The literal with a name and parts. -/
def call (name : Text) (parts : List Text) : Text :=
  "datetime." ++ name ++ "(" ++ Text.join ", " parts ++ ")"

/-- The literal of an offset: whole days, of which an offset backwards takes one, and seconds. -/
def offsetLiteral (ahead : Int) : Text :=
  if ahead = 0 then "datetime.timezone.utc"
  else
    let days : List Text := if ahead < 0 then ["days=-1"] else []
    let seconds : Text := "seconds=" ++ Text.integer ((60 * ahead) % 86400)
    call "timezone" [call "timedelta" (days ++ [seconds])]

/-- The literal of a date or a time. -/
def literal : Moment → Text
  | day d => call "date" (dayParts d)
  | time c => call "time" (clockParts c)
  | both d c ahead =>
    let offset : List Text := ahead.toList.map fun n => "tzinfo=" ++ offsetLiteral n
    call "datetime" (dayParts d ++ clockParts c ++ offset)

/-- Whether the calendar has the day that is named, if one is. -/
def isValid : Moment → Bool
  | day d | both d _ _ => d.isValid
  | time _ => true

end Moment

end ConfigShell.Config
