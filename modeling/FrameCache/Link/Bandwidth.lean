import FrameCache.Link.Basic

/-!
# Bandwidth and utilisation

Bandwidth is a rate in bits per second. Rates are taken as they are; byte counts are
turned into rates with the sampling period of the index, which must be uniform. The
utilisation of a link is its bandwidth as a percentage of the link's installed speed; a
link whose speed is unknown, infinite or not positive has no utilisation (NaN).
-/

namespace FrameCache

namespace Link

/-- The largest signed 64-bit count of nanoseconds. -/
def maxNanos : Nat := 9223372036854775807

/-- The length of a period in seconds as a double: its nanoseconds (or the largest 64-bit
count when they do not fit) over 10⁹. -/
def periodSeconds (period : TimeDelta) : Double :=
  let n := period.toInt64Nanos?.getD maxNanos
  (Decimal.toDouble (n < 0) n.natAbs 0).div (Decimal.toDouble false 1000000000 0)

/-- Adds the bandwidth column: rates copied, byte counts times eight over the period. -/
def bandwidth (f : Frame) (linkColumn dataColumn : String) (kind : DataKind) :
    Except CacheError Frame := do
  discard ((f.textColumn linkColumn).mapError .frame)
  let values ← (f.floatColumn dataColumn).mapError .frame
  let bps ← match kind with
    | .bitsPerSecond => pure values
    | .bytes =>
      match ← samplingPeriod f.index.toList with
      | some period =>
        let seconds := periodSeconds period
        let eight := Decimal.toDouble false 8 0
        pure (values.map fun v => (v.mul eight).div seconds)
      | none => throw (.invalidConfiguration
          "cannot infer a sampling period from fewer than two timestamps")
  (f.insertColumn bandwidthColumn (.float bps)).mapError .frame

/-- The speed of a link if it can divide: finite and positive. -/
def usableSpeed (speed : Double) : Option Double :=
  if speed.isFinite && Double.zero.lt speed then some speed else none

/-- Adds the utilisation column: bandwidth times a hundred over the link's speed. `speeds`
gives the installed speed of the links it knows. -/
def utilization (f : Frame) (linkColumn : String) (speeds : String → Option Double) :
    Except CacheError Frame := do
  let links ← (f.textColumn linkColumn).mapError .frame
  let bps ← (f.floatColumn bandwidthColumn).mapError .frame
  let hundred := Decimal.toDouble false 100 0
  let u := (links.toList.zip bps.toList).map fun (l, v) =>
    match (speeds l).bind usableSpeed with
    | some s => (v.mul hundred).div s
    | none => Double.nan
  (f.insertColumn utilizationColumn (.float u.toArray)).mapError .frame

end Link

end FrameCache
