/-!
# Faults

A fault is a failure of the program itself rather than of what it was asked: a value it
needs cannot be formed. A fault ends the whole run, and its text is all that is reported.
A timestamp whose local time, its instant moved by its offset, falls outside the supported
years cannot be written out or cut on the local clock; a count of rows summed over partitions
cannot exceed the 64-bit range; and a sum of time deltas cannot leave the range of deltas.
-/

namespace FrameCache

/-- Why a run had to stop. -/
inductive Fault where
  /-- A timestamp's local time lies outside the supported years. -/
  | localTimeOutOfRange
  /-- A sum of counts exceeds the 64-bit range. -/
  | addOverflow
  /-- A sum of time deltas leaves the range of deltas. -/
  | deltaAddOverflow
  deriving DecidableEq, Repr

namespace Fault

/-- The text of a fault. -/
def message : Fault → String
  | .localTimeOutOfRange => "Local time out of range for `NaiveDateTime`"
  | .addOverflow => "attempt to add with overflow"
  | .deltaAddOverflow => "`TimeDelta + TimeDelta` overflowed"

end Fault

end FrameCache
