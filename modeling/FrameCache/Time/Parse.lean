import FrameCache.Time.Text

/-!
# Reading timestamps

Two readers of written timestamps, both into the fields of a local date, time and offset,
which are then checked together.

* `Timestamp.parseRfc3339` takes the RFC 3339 form exactly: four-digit year, two-digit
  month, day, hour, minute and second, `T`, `t` or a blank between date and time, any number
  of fraction digits (those past the ninth are skipped), and `Z`, `z` or `±HH:MM` up to
  23:59. Second 60 is a leap second.
* `Timestamp.parseLenient` also takes blanks around the parts, numbers with fewer digits, a
  signed year of any length, a fraction without digits after it left out, `UTC` in any case,
  and offsets with or without a colon up to 99:59 before the range check.

A failure tells what kind of problem was met first, in the order the text is read.
-/

namespace FrameCache

/-- Why a written timestamp was refused. -/
inductive TimeParseError where
  | outOfRange
  | impossible
  | notEnough
  | invalid
  | tooShort
  | tooLong
  deriving DecidableEq, Repr

namespace TimeParseError

/-- The text of a refusal. -/
def message : TimeParseError → String
  | .outOfRange => "input is out of range"
  | .impossible => "no possible date and time matching input"
  | .notEnough => "input is not enough for unique date and time"
  | .invalid => "input contains invalid characters"
  | .tooShort => "premature end of input"
  | .tooLong => "trailing input"

end TimeParseError

/-- The fields read from a written timestamp, before they are checked together. -/
structure TimeFields where
  year : Int := 0
  month : Nat := 0
  day : Nat := 0
  hour : Nat := 0
  minute : Nat := 0
  second : Nat := 0
  nano : Nat := 0
  offset : Int := 0

namespace TimeFields

/-- The timestamp the fields name: the date must exist in the supported years, second 60 is
a leap second, and the offset must be strictly within a day; a local time whose instant falls
outside the supported range names no timestamp. -/
def toTimestamp (f : TimeFields) : Except TimeParseError Timestamp := do
  let date : Civil := ⟨f.year, f.month, f.day⟩
  if !(date.isValid && -262143 ≤ f.year && f.year ≤ 262142) then throw .outOfRange
  let (sec, leap) := if f.second = 60 then (59, 1000000000) else (f.second, 0)
  let o ← match Offset.ofSeconds? f.offset with
    | some o => pure o
    | none => throw .outOfRange
  let local_ := date.toDays * 86400 + (f.hour * 3600 + f.minute * 60 + sec : Nat)
  match Timestamp.ofParts? (local_ - f.offset) (f.nano + leap) o with
  | some t => pure t
  | none => throw .impossible

end TimeFields

/-- Reading over the characters of the text; the state is the rest of the text. -/
abbrev TimeScan := StateT (List Char) (Except TimeParseError)

namespace TimeScan

/-- The length in UTF-8 bytes of a list of characters. -/
def byteLength (cs : List Char) : Nat := cs.foldl (fun n c => n + c.utf8Size) 0

/-- A number of `min` to `max` digits; fails if the text is shorter than `min` bytes or the
first `min` characters are not all digits. -/
def number (min max : Nat) : TimeScan Nat := do
  let cs ← get
  if byteLength cs < min then throw .tooShort
  let ds := (cs.take max).takeWhile Char.isDigit
  if ds.length < min then throw .invalid
  set (cs.drop ds.length)
  return ds.foldl (fun n c => n * 10 + (c.toNat - 48)) 0

/-- One given character. -/
def char (c : Char) : TimeScan Unit := do
  match ← get with
  | [] => throw .tooShort
  | x :: rest => if x = c then set rest else throw .invalid

/-- A fraction of a second after its point: at least one digit, the first nine counted. -/
def fraction : TimeScan Nat := do
  let cs ← get
  let n ← number 1 9
  let used := cs.length - (← get).length
  let scaled := n * Nat.pow 10 (9 - used)
  modify (·.dropWhile Char.isDigit)
  return scaled

/-- The fraction of a second after a point, or 0 when no point follows. -/
def fractionPart : TimeScan Nat := do
  match ← get with
  | '.' :: rest => set rest; fraction
  | _ => pure 0

/-- The separator between date and time: `T`, `t` or a blank. -/
def dateTimeSeparator : TimeScan Unit := do
  match ← get with
  | c :: rest => if c = 'T' || c = 't' || c = ' ' then set rest else throw .invalid
  | [] => throw .tooShort

/-- Unicode white space. -/
def isBlank (c : Char) : Bool :=
  let n := c.toNat
  (9 ≤ n && n ≤ 13) || n = 32 || n = 0x85 || n = 0xA0 || n = 0x1680 ||
    (0x2000 ≤ n && n ≤ 0x200A) || n = 0x2028 || n = 0x2029 || n = 0x202F || n = 0x205F ||
    n = 0x3000

/-- Skips white space. -/
def blanks : TimeScan Unit := modify (·.dropWhile isBlank)

/-- Whether a character is a hyphen-minus or the minus sign U+2212. -/
def isMinus (c : Char) : Bool := c = '-' || c.toNat = 0x2212

/-- The next two characters, looked for in the next two bytes: a text of one byte ends too
early while one multi-byte character is not a pair. -/
def twoChars : TimeScan (Char × Char) := do
  let cs ← get
  if byteLength cs < 2 then throw .tooShort
  match cs with
  | a :: b :: _ => pure (a, b)
  | _ => throw .invalid

/-- The sign of an offset, `+` or a minus: whether it is west of UTC. -/
def offsetSign : TimeScan Bool := do
  match ← get with
  | [] => throw .tooShort
  | c :: rest =>
    if c = '+' then set rest; pure false
    else if isMinus c then set rest; pure true
    else throw .invalid

/-- The minutes of an offset from their two digits, below 60. -/
def offsetMinutes (m1 m2 : Char) : TimeScan Nat :=
  if '0' ≤ m1 && m1 ≤ '5' && m2.isDigit then pure ((m1.toNat - 48) * 10 + (m2.toNat - 48))
  else if '6' ≤ m1 && m1 ≤ '9' && m2.isDigit then throw .outOfRange
  else throw .invalid

/-- A numeric offset: a sign, two hour digits, the separator read by `sep`, and two minute
digits below 60. -/
def numericOffset (sep : TimeScan Unit) : TimeScan Int := do
  let negative ← offsetSign
  let (h1, h2) ← twoChars
  if !(h1.isDigit && h2.isDigit) then throw .invalid
  modify (·.drop 2)
  sep
  let (m1, m2) ← twoChars
  let minutes ← offsetMinutes m1 m2
  modify (·.drop 2)
  let secs : Int := ((h1.toNat - 48) * 10 + (h2.toNat - 48)) * 3600 + minutes * 60
  return if negative then -secs else secs

/-- An offset: `Z`/`z`, or a numeric offset. -/
def offset (sep : TimeScan Unit) : TimeScan Int := do
  match ← get with
  | c :: rest =>
    if c = 'Z' || c = 'z' then set rest; return 0
  | [] => pure ()
  numericOffset sep

/-- Checks a field against its range. -/
def within (v lo hi : Nat) : TimeScan Nat := if lo ≤ v && v ≤ hi then pure v else throw .outOfRange

/-- The date and time parts of the RFC 3339 form. -/
def rfc3339 : TimeScan TimeFields := do
  let year ← number 4 4
  char '-'
  let month ← within (← number 2 2) 1 12
  char '-'
  let day ← within (← number 2 2) 1 31
  dateTimeSeparator
  let hour ← within (← number 2 2) 0 23
  char ':'
  let minute ← within (← number 2 2) 0 59
  char ':'
  let second ← within (← number 2 2) 0 60
  let nano ← fractionPart
  let off ← offset (char ':')
  if off.natAbs > (23 * 60 + 59) * 60 then throw .outOfRange
  return { year, month, day, hour, minute, second, nano, offset := off }

/-- A number of one to `width` digits after blanks. -/
def lenientNumber (width : Nat) : TimeScan Nat := do blanks; number 1 width

/-- A literal after blanks. -/
def lenientChar (c : Char) : TimeScan Unit := do blanks; char c

/-- A number of any length whose value, read digit by digit, stays within a signed 64-bit
count. -/
def wideNumber : TimeScan Nat := do
  let n ← number 1 (← get).length
  if n > 9223372036854775807 then throw .outOfRange
  return n

/-- The year of the lenient form after blanks: a sign and any number of digits, or one to
four digits; it must be a signed 32-bit year. -/
def lenientYear : TimeScan Int := do
  blanks
  let year : Int ← do
    match ← get with
    | '-' :: rest => set rest; let v ← wideNumber; pure (-(v : Int))
    | '+' :: rest => set rest; let v ← wideNumber; pure (v : Int)
    | _ => let v ← number 1 4; pure (v : Int)
  if year < -2147483648 || year > 2147483647 then throw .outOfRange
  return year

/-- The parts of the lenient form up to the offset. -/
def lenient : TimeScan TimeFields := do
  let year ← lenientYear
  lenientChar '-'
  let month ← within (← lenientNumber 2) 1 12
  lenientChar '-'
  let day ← within (← lenientNumber 2) 1 31
  dateTimeSeparator
  let hour ← within (← lenientNumber 2) 0 23
  lenientChar ':'
  let minute ← within (← lenientNumber 2) 0 59
  lenientChar ':'
  let second ← within (← lenientNumber 2) 0 60
  let nano ← fractionPart
  blanks
  let cs ← get
  let off ← match cs with
    | a :: b :: c :: rest =>
      if a.toUpper = 'U' && b.toUpper = 'T' && c.toUpper = 'C' then set rest; pure 0
      else offset (modify (·.dropWhile (fun x => x = ':' || isBlank x)))
    | _ => offset (modify (·.dropWhile (fun x => x = ':' || isBlank x)))
  return { year, month, day, hour, minute, second, nano, offset := off }

end TimeScan

namespace Timestamp

/-- Reads the RFC 3339 form of a timestamp. A text shorter than the shortest complete form
(`YYYY-MM-DDTHH:MM:SSZ`) ends too early. -/
def parseRfc3339 (s : String) : Except TimeParseError Timestamp := do
  if s.utf8ByteSize < 20 then throw .tooShort
  let (fields, rest) ← TimeScan.rfc3339.run s.toList
  if !rest.isEmpty then throw .tooLong
  fields.toTimestamp

/-- Reads a timestamp in the lenient form; only blanks may follow it. -/
def parseLenient (s : String) : Except TimeParseError Timestamp := do
  let (fields, rest) ← TimeScan.lenient.run s.toList
  if !(rest.dropWhile TimeScan.isBlank).isEmpty then throw .tooLong
  fields.toTimestamp

end Timestamp

end FrameCache
