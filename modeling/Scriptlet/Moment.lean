import Scriptlet.Text

/-
  Moments of the calendar.

  A moment is a count of microseconds since the start of 1970. Its date follows the Gregorian
  calendar, which repeats every 400 years; years are counted from March here, so that the day that
  leap years add comes last.
-/

namespace Scriptlet

/-- A moment, in microseconds since the start of the year 1970. -/
structure Moment where
  microseconds : Nat
  deriving DecidableEq

/-- A moment by the calendar and the clock. -/
structure Calendar where
  year : Nat
  month : Nat
  day : Nat
  hour : Nat
  minute : Nat
  second : Nat
  microsecond : Nat
  deriving DecidableEq

namespace Moment

/-- Whole seconds since the start of 1970. -/
def seconds (m : Moment) : Nat := m.microseconds / 1000000

/-- The year, month and day of a count of days since the start of 1970. -/
def dateOfDays (days : Nat) : Nat × Nat × Nat :=
  -- from here on days count from the first of March of the year zero
  let shifted := days + 719468
  let era := shifted / 146097
  let dayOfEra := shifted % 146097
  let yearOfEra := (dayOfEra - dayOfEra / 1460 + dayOfEra / 36524 - dayOfEra / 146096) / 365
  let dayOfYear := dayOfEra - (365 * yearOfEra + yearOfEra / 4 - yearOfEra / 100)
  let monthFromMarch := (5 * dayOfYear + 2) / 153
  let day := dayOfYear - (153 * monthFromMarch + 2) / 5 + 1
  let month := if monthFromMarch < 10 then monthFromMarch + 3 else monthFromMarch - 9
  let year := yearOfEra + era * 400
  (if month ≤ 2 then year + 1 else year, month, day)

def calendar (m : Moment) : Calendar :=
  let (year, month, day) := dateOfDays (m.seconds / 86400)
  let inDay := m.seconds % 86400
  ⟨year, month, day, inDay / 3600, inDay / 60 % 60, inDay % 60, m.microseconds % 1000000⟩

end Moment

namespace Calendar

def two (n : Nat) : Text := (Text.ofNat n).padLeft 2 '0'

/-- Year, month and day with hyphens between them. -/
def dateText (c : Calendar) : Text :=
  (Text.ofNat c.year).padLeft 4 '0' ++ "-" ++ two c.month ++ "-" ++ two c.day

/-- How far the clock is written out. -/
inductive Precision where
  /-- To the second, and to the microsecond if that is not zero. -/
  | auto
  | hours
  | minutes
  | seconds
  | milliseconds
  | microseconds

def Precision.ofName? (name : Text) : Option Precision :=
  [("auto", Precision.auto), ("hours", .hours), ("minutes", .minutes), ("seconds", .seconds),
   ("milliseconds", .milliseconds), ("microseconds", .microseconds)].lookup name.toString

/-- Hours, minutes, seconds and fractions with colons and a point between them. -/
def clockText (c : Calendar) (precision : Precision) : Text :=
  let hours := two c.hour
  let minutes := hours ++ ":" ++ two c.minute
  let seconds := minutes ++ ":" ++ two c.second
  let fraction := seconds ++ "." ++ (Text.ofNat c.microsecond).padLeft 6 '0'
  match precision with
  | .auto => if c.microsecond = 0 then seconds else fraction
  | .hours => hours
  | .minutes => minutes
  | .seconds => seconds
  | .milliseconds => seconds ++ "." ++ (Text.ofNat (c.microsecond / 1000)).padLeft 3 '0'
  | .microseconds => fraction

/-- Date and clock with a separator between them. -/
def isoText (c : Calendar) (separator : CodePoint) (precision : Precision) : Text :=
  c.dateText ++ [separator] ++ c.clockText precision

end Calendar

end Scriptlet
