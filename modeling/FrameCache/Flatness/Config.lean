import FrameCache.Link.Basic
import FrameCache.Decimal.Layout

/-!
# Flatness settings and intervals

A link is flat while its rolling utilisation stays strictly inside a valid band and barely
moves: the spread of the window (greatest minus least) stays under the flatness limit. The
rolling window is also the shortest interval reported.

Intervals are closed: from a start to an end timestamp, both included.
-/

namespace FrameCache

/-- A closed time interval. -/
structure Interval where
  start : Timestamp
  stop : Timestamp

namespace Interval

/-- The length of the interval, end minus start. -/
def duration (i : Interval) : TimeDelta := i.stop.since i.start

/-- The interval as `[start, end]` in RFC 3339. -/
def display (i : Interval) : String := "[" ++ i.start.rfc3339 ++ ", " ++ i.stop.rfc3339 ++ "]"

end Interval

/-- The summed length of intervals, added in order; a sum that leaves the range of time
deltas is a fault. -/
def totalDuration (is : List Interval) : Except Fault TimeDelta :=
  is.foldlM (fun acc i => match acc.add? i.duration with
    | some d => .ok d
    | none => .error .deltaAddOverflow) TimeDelta.zero

/-- The settings of a flatness analysis. -/
structure FlatnessConfig where
  linkColumn : String := Link.defaultColumn
  dataColumn : String := "bytes"
  dataKind : DataKind := .bytes
  /-- The rolling window, also the shortest interval reported. -/
  window : Span := Span.ofWholeSeconds 3600
  /-- The fewest values (not NaN) a rolling window needs. -/
  minPeriods : Nat := 1
  /-- The valid band of the mean utilisation in percent, both ends excluded. -/
  minValid : Double := Double.zero
  maxValid : Double := ⟨0x4059000000000000⟩
  /-- The largest spread of utilisation that is still flat. -/
  flatnessLimit : Double := ⟨0x3ff0000000000000⟩
  /-- Whether unevenly sampled data is first resampled to its smallest gap. -/
  resample : Bool := false

namespace FlatnessConfig

/-- Checks the settings and gives the window as a time delta: the window must be a
positive time delta, the valid band not empty, the limit positive and both column names
given. -/
def validate (c : FlatnessConfig) : Except CacheError TimeDelta := do
  let some w := (TimeDelta.ofSpan? c.window).filter (0 < ·.nanos)
    | throw (.invalidConfiguration ("window " ++ c.window.text ++ " must be positive"))
  if !(c.minValid.lt c.maxValid) then
    throw (.invalidConfiguration ("valid range (" ++ c.minValid.plainText ++ ", "
      ++ c.maxValid.plainText ++ ") is empty"))
  if !(Double.zero.lt c.flatnessLimit) then
    throw (.invalidConfiguration ("flatness limit " ++ c.flatnessLimit.plainText ++ " must be positive"))
  if c.linkColumn.isEmpty || c.dataColumn.isEmpty then
    throw (.invalidConfiguration "link and data column names are required")
  return w

end FlatnessConfig

end FrameCache
