import FrameCache.Time.Timestamp

/-!
# Written timestamps

Two written forms of a timestamp, both of its local date and time.

* The RFC 3339 form `2023-11-14T22:13:20.250+05:30`: the fraction is left out when it is
  zero and otherwise has 3, 6 or 9 digits, the fewest that hold it exactly; the offset is
  rounded to the nearest minute, with the sign of the unrounded offset. With `Z` allowed,
  the zero offset is written `Z`.
* The plain form `2023-11-14 22:13:20.250 +05:30`, used in messages: the same date, time and
  fraction, and the offset with its seconds when it has any (`+00:00:30`).

Years from 0 to 9999 have four digits; other years carry a sign and at least four digits.
A leap second is written as the local second after the one it follows: second 60 when the
offset is a whole number of minutes.

Both forms are written for any local time on the proleptic calendar, also one outside the
supported years. `Timestamp.render`, the RFC 3339 form as it is written out, and partition
names need the local time in range and fail with a fault otherwise.
-/

namespace FrameCache

namespace Timestamp

/-- `n` with at least `width` digits, padded with leading zeros. -/
def zeroPad (width n : Nat) : String :=
  let s := toString n
  String.ofList (List.replicate (width - s.length) '0') ++ s

/-- A year: four digits for the years 0 to 9999, otherwise a sign and at least four digits. -/
def yearText (y : Int) : String :=
  if 0 ≤ y ∧ y ≤ 9999 then zeroPad 4 y.toNat
  else (if y < 0 then "-" else "+") ++ zeroPad 4 y.natAbs

/-- A fraction of a second in nanoseconds: nothing when zero, else a point and 3, 6 or 9
digits, the fewest that hold it exactly. -/
def fractionText (nano : Nat) : String :=
  if nano = 0 then ""
  else if nano % 1000000 = 0 then "." ++ zeroPad 3 (nano / 1000000)
  else if nano % 1000 = 0 then "." ++ zeroPad 6 (nano / 1000)
  else "." ++ zeroPad 9 nano

/-- The local date as `YYYY-MM-DD`. -/
def dateText (t : Timestamp) : String :=
  let d := t.localDate
  yearText d.year ++ "-" ++ zeroPad 2 d.month ++ "-" ++ zeroPad 2 d.day

/-- The local time as `HH:MM:SS` and its fraction; a leap second is the local second after
the one it follows, so second 60 at an offset of whole minutes. -/
def timeText (t : Timestamp) : String :=
  let sod := t.localSecondOfDay
  let leap := decide (t.nano ≥ 1000000000)
  let sec := sod % 60 + (if leap then 1 else 0)
  let nano := if leap then t.nano - 1000000000 else t.nano
  zeroPad 2 (sod / 3600) ++ ":" ++ zeroPad 2 (sod / 60 % 60) ++ ":" ++ zeroPad 2 sec ++
    fractionText nano

end Timestamp

namespace Offset

/-- The sign of an offset: `-` west of UTC, `+` otherwise. -/
def signText (o : Offset) : String := if o.seconds < 0 then "-" else "+"

/-- The offset rounded to the nearest minute, as `±HH:MM`; the sign is that of the
unrounded offset. -/
def minutesText (o : Offset) : String :=
  let minutes := (o.seconds.natAbs + 30) / 60
  o.signText ++ Timestamp.zeroPad 2 (minutes / 60) ++ ":" ++ Timestamp.zeroPad 2 (minutes % 60)

/-- The offset as `±HH:MM`, followed by `:SS` when it has seconds. -/
def text (o : Offset) : String :=
  let a := o.seconds.natAbs
  let base := o.signText ++ Timestamp.zeroPad 2 (a / 3600) ++ ":" ++ Timestamp.zeroPad 2 (a / 60 % 60)
  if a % 60 = 0 then base else base ++ ":" ++ Timestamp.zeroPad 2 (a % 60)

end Offset

namespace Timestamp

/-- The RFC 3339 form, with `Z` for the zero offset when `zulu` holds. -/
def rfc3339With (zulu : Bool) (t : Timestamp) : String :=
  t.dateText ++ "T" ++ t.timeText ++
    (if zulu && t.offset.seconds == 0 then "Z" else t.offset.minutesText)

/-- The RFC 3339 form with a numeric offset. -/
def rfc3339 (t : Timestamp) : String := rfc3339With false t

/-- The plain form used in messages: date, time and offset separated by blanks. -/
def display (t : Timestamp) : String :=
  t.dateText ++ " " ++ t.timeText ++ " " ++ t.offset.text

/-- The RFC 3339 form as it is written out, which needs the local time to be in range. -/
def render (t : Timestamp) : Except Fault String := do
  t.checkLocal
  return t.rfc3339

end Timestamp

end FrameCache
