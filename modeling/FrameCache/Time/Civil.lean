/-!
# Civil dates

Days are counted from 1970-01-01 in the proleptic Gregorian calendar, with a year 0 and
negative years before it. `Civil.ofDays` and `Civil.toDays` are the two directions of the
count; they work on 400-year eras of 146097 days, inside which the year is taken to start
on the first of March so that the leap day falls at the end.
-/

namespace FrameCache

/-- A calendar date: a year of the proleptic Gregorian calendar, a month `1..12` and a
day of the month. -/
structure Civil where
  year : Int
  month : Nat
  day : Nat
  deriving DecidableEq, Repr, Inhabited

namespace Civil

/-- Days from 0000-03-01 to 1970-01-01. -/
def epochShift : Int := 719468

/-- Days in one 400-year era. -/
def eraDays : Int := 146097

/-- Whether the year has a 29th of February. -/
def isLeapYear (y : Int) : Bool :=
  y % 4 == 0 && (y % 100 != 0 || y % 400 == 0)

/-- The number of days in a month of a year. -/
def daysInMonth (y : Int) (m : Nat) : Nat :=
  match m with
  | 1 | 3 | 5 | 7 | 8 | 10 | 12 => 31
  | 4 | 6 | 9 | 11 => 30
  | 2 => if isLeapYear y then 29 else 28
  | _ => 0

/-- Whether month and day name a day of the calendar. -/
def isValid (c : Civil) : Bool :=
  1 ≤ c.month && c.month ≤ 12 && 1 ≤ c.day && c.day ≤ daysInMonth c.year c.month

/-- The date of the day that lies `z` days after 1970-01-01. -/
def ofDays (z : Int) : Civil :=
  let z := z + epochShift
  let era := z / eraDays
  let doe := z - era * eraDays
  let yoe := (doe - doe / 1460 + doe / 36524 - doe / 146096) / 365
  let doy := doe - (365 * yoe + yoe / 4 - yoe / 100)
  let mp := (5 * doy + 2) / 153
  let d := doy - (153 * mp + 2) / 5 + 1
  let m := if mp < 10 then mp + 3 else mp - 9
  let y := yoe + era * 400 + (if m ≤ 2 then 1 else 0)
  { year := y, month := m.toNat, day := d.toNat }

/-- The number of days from 1970-01-01 to the date (negative before it). -/
def toDays (c : Civil) : Int :=
  let m : Int := c.month
  let y := c.year - (if m ≤ 2 then 1 else 0)
  let era := y / 400
  let yoe := y - era * 400
  let doy := (153 * (if m > 2 then m - 3 else m + 9) + 2) / 5 + c.day - 1
  let doe := yoe * 365 + yoe / 4 - yoe / 100 + doy
  era * eraDays + doe - epochShift

example : ofDays 0 = ⟨1970, 1, 1⟩ := by decide
example : ofDays (-1) = ⟨1969, 12, 31⟩ := by decide
example : toDays ⟨2000, 3, 1⟩ = 11017 := by decide
example : ofDays 11016 = ⟨2000, 2, 29⟩ := by decide

end Civil

end FrameCache
