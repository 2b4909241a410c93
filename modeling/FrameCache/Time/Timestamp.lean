import FrameCache.Time.Civil
import FrameCache.Time.Delta
import FrameCache.Fault

/-!
# Timestamps

A timestamp is an instant of the UTC time line together with the fixed offset at which it
is shown. The instant is a whole second since 1970-01-01T00:00:00Z and a nanosecond part
below 2·10⁹: a part of 10⁹ or more marks a leap second, the extra second that follows the
whole second. Instants are ordered by second, then nanosecond, so a leap second lies after
every other instant of its second and before the next second.

Timestamps cover the years −262143 to 262142. Equality and order of timestamps look at the
instant only: two timestamps that differ only in their offset compare equal.

Adding a span to a timestamp leaves a leap second as soon as the span moves by a whole
second or carries past its end, and the difference of two timestamps counts a leap second
that lies between their times of day.
-/

namespace FrameCache

/-- Seconds in a day. -/
def secondsPerDay : Int := 86400

/-- A fixed offset from UTC in seconds east, strictly within one day. -/
structure Offset where
  seconds : Int
  gt_neg_day : -86400 < seconds := by decide
  lt_day : seconds < 86400 := by decide

namespace Offset

instance : DecidableEq Offset := fun a b =>
  if h : a.seconds = b.seconds then
    isTrue (by cases a; cases b; simp only at h; subst h; rfl)
  else isFalse (fun e => h (e ▸ rfl))

/-- The offset of UTC itself. -/
def utc : Offset := ⟨0, by decide, by decide⟩

instance : Inhabited Offset := ⟨utc⟩

/-- The offset of `s` seconds east, if it is strictly within one day. -/
def ofSeconds? (s : Int) : Option Offset :=
  if h : -86400 < s ∧ s < 86400 then some ⟨s, h.1, h.2⟩ else none

end Offset

/-- A point of the UTC time line: a whole second and a nanosecond part, where a part of
10⁹ or more lies in the leap second after `second`. -/
structure Instant where
  second : Int
  nano : Nat
  deriving DecidableEq, Repr, Inhabited

namespace Instant

/-- Instants are ordered by second, then by nanosecond part. -/
def lt (a b : Instant) : Prop := a.second < b.second ∨ (a.second = b.second ∧ a.nano < b.nano)

instance : LT Instant := ⟨lt⟩
instance : LE Instant := ⟨fun a b => ¬ b < a⟩

instance (a b : Instant) : Decidable (a < b) :=
  inferInstanceAs (Decidable (a.second < b.second ∨ (a.second = b.second ∧ a.nano < b.nano)))

instance (a b : Instant) : Decidable (a ≤ b) := inferInstanceAs (Decidable (¬ b < a))

/-- Three-way comparison by second, then nanosecond part. -/
def cmp (a b : Instant) : Ordering :=
  (compare a.second b.second).then (compare a.nano b.nano)

instance : Ord Instant := ⟨cmp⟩

end Instant

/-- The first second of −262143-01-01. -/
def minSecond : Int := -8334601228800

/-- The last second of 262142-12-31. -/
def maxSecond : Int := 8210266876799

/-- An instant of the years −262143 to 262142, shown at a fixed offset. -/
structure Timestamp where
  second : Int
  nano : Nat
  offset : Offset
  nano_lt : nano < 2000000000
  min_le : minSecond ≤ second
  le_max : second ≤ maxSecond

namespace Timestamp

/-- 1970-01-01T00:00:00Z. -/
def epoch : Timestamp := ⟨0, 0, Offset.utc, by decide, by decide, by decide⟩

instance : Inhabited Timestamp := ⟨epoch⟩

/-- The instant, without the offset. -/
def instant (t : Timestamp) : Instant := ⟨t.second, t.nano⟩

instance : LT Timestamp := ⟨fun a b => a.instant < b.instant⟩
instance : LE Timestamp := ⟨fun a b => a.instant ≤ b.instant⟩
instance (a b : Timestamp) : Decidable (a < b) := inferInstanceAs (Decidable (a.instant < b.instant))
instance (a b : Timestamp) : Decidable (a ≤ b) := inferInstanceAs (Decidable (a.instant ≤ b.instant))

/-- Three-way comparison of the instants. -/
def cmp (a b : Timestamp) : Ordering := a.instant.cmp b.instant

/-- Whether two timestamps name the same instant, whatever their offsets. -/
def sameInstant (a b : Timestamp) : Bool := a.instant == b.instant

/-- The later of two timestamps; of two at the same instant, the second. -/
def later (a b : Timestamp) : Timestamp := if b < a then a else b

/-- The earlier of two timestamps; of two at the same instant, the first. -/
def earlier (a b : Timestamp) : Timestamp := if b < a then b else a

/-- The timestamp `s` seconds and `n` nanoseconds after the epoch, at offset `o`, if the
second lies in the supported years and the nanosecond part is below 2·10⁹. -/
def ofParts? (s : Int) (n : Nat) (o : Offset) : Option Timestamp :=
  if h : n < 2000000000 ∧ minSecond ≤ s ∧ s ≤ maxSecond then
    some ⟨s, n, o, h.1, h.2.1, h.2.2⟩
  else none

/-- The timestamp `s` seconds and `n` nanoseconds after the epoch, at offset `o`, as
`ofParts?` gives it, where a leap second may only follow the last second of a UTC minute. -/
def ofUnix? (s : Int) (n : Nat) (o : Offset) : Option Timestamp :=
  if n ≥ 1000000000 && s % 60 != 59 then none else ofParts? s n o

/-- The same instant shown at another offset. -/
def withOffset (t : Timestamp) (o : Offset) : Timestamp := { t with offset := o }

/-- The whole second of the local time, counted like `second` but shifted by the offset. -/
def localSecond (t : Timestamp) : Int := t.second + t.offset.seconds

/-- Whether the local time lies in the supported years. Only then can the timestamp be
shown or cut on its local clock; a timestamp near either end of the supported years may have
an instant inside them and a local time outside. -/
def localInRange (t : Timestamp) : Bool := minSecond ≤ t.localSecond && t.localSecond ≤ maxSecond

/-- Fails with `Fault.localTimeOutOfRange` when the local time is out of range. -/
def checkLocal (t : Timestamp) : Except Fault Unit :=
  if t.localInRange then .ok () else .error .localTimeOutOfRange

/-- The local calendar date. -/
def localDate (t : Timestamp) : Civil := Civil.ofDays (t.localSecond / secondsPerDay)

/-- The local second of the day, `0..86399`. -/
def localSecondOfDay (t : Timestamp) : Nat := (t.localSecond % secondsPerDay).toNat

/-- Nanoseconds since the epoch of the instant, if they fit in a signed 64-bit count.
A leap second counts as the second that follows it. -/
def toNanos? (t : Timestamp) : Option Int :=
  let n := t.second * nanosPerSecond + t.nano
  if fitsInt64 n then some n else none

/-- Nanoseconds since the epoch of the local time read as if it were UTC, if they fit in a
signed 64-bit count; this is the count that local truncation works on. -/
def localNanos? (t : Timestamp) : Option Int :=
  let n := t.localSecond * nanosPerSecond + t.nano
  if fitsInt64 n then some n else none

/-- The second of a signed 64-bit nanosecond count lies far inside the supported years. -/
theorem second_of_nanos_bounds (n : Int) (h : fitsInt64 n = true) :
    minSecond ≤ n / nanosPerSecond ∧ n / nanosPerSecond ≤ maxSecond := by
  have h := fitsInt64_iff.1 h
  unfold minSecond maxSecond nanosPerSecond
  omega

/-- The timestamp of a signed 64-bit nanosecond count since the epoch, at offset `o`. -/
def ofNanos (n : Int) (h : fitsInt64 n = true) (o : Offset) : Timestamp :=
  have hb := second_of_nanos_bounds n h
  ⟨n / nanosPerSecond, (n % nanosPerSecond).toNat, o,
    by unfold nanosPerSecond; omega, hb.1, hb.2⟩

/-- The instant moved by a signed span, if it stays within the supported years. A leap
second is left when the span has a whole second or carries past its end; a span of less
than a second that stays inside it keeps it. -/
def addDelta? (t : Timestamp) (d : TimeDelta) : Option Timestamp :=
  let secsToAdd := d.wholeSeconds
  let fracToAdd := d.subsecNanos
  let frac : Int := t.nano
  if frac ≥ 1000000000 && secsToAdd == 0 && !(fracToAdd > 0 && frac + fracToAdd ≥ 2000000000) then
    -- stays inside the leap second
    ofParts? t.second (frac + fracToAdd).toNat t.offset
  else
    let (secs, frac) :=
      if frac ≥ 1000000000 then
        if secsToAdd < 0 then (t.second + 1, frac - 1000000000) else (t.second, frac - 1000000000)
      else (t.second, frac)
    let secs := secs + secsToAdd
    let frac := frac + fracToAdd
    let (secs, frac) :=
      if frac < 0 then (secs - 1, frac + 1000000000)
      else if frac ≥ 1000000000 then (secs + 1, frac - 1000000000)
      else (secs, frac)
    ofParts? secs frac.toNat t.offset

/-- The instant moved back by a signed span, if it stays within the supported years. -/
def subDelta? (t : Timestamp) (d : TimeDelta) : Option Timestamp := t.addDelta? d.neg

/-- The leap second that the difference from `b` to `a` counts beyond the difference of their
seconds: one when `a`'s time of day is later and `b` sits in a leap second, minus one when
`a`'s time of day is earlier and `a` sits in a leap second. -/
def leapAdjust (a b : Timestamp) : Int :=
  if a.second % secondsPerDay > b.second % secondsPerDay && b.nano ≥ 1000000000 then 1
  else if a.second % secondsPerDay < b.second % secondsPerDay && a.nano ≥ 1000000000 then -1
  else 0

theorem leapAdjust_bounds (a b : Timestamp) : -1 ≤ leapAdjust a b ∧ leapAdjust a b ≤ 1 := by
  unfold leapAdjust
  split
  · omega
  · split <;> omega

/-- The signed span from `b` to `a`: the difference of the seconds and the leap adjustment,
in nanoseconds, plus the difference of the nanosecond parts. -/
def since (a b : Timestamp) : TimeDelta :=
  ⟨(a.second - b.second + leapAdjust a b) * 1000000000 + a.nano - b.nano,
    by
      have := a.le_max; have := b.min_le; have := a.nano_lt; have := leapAdjust_bounds a b
      unfold minSecond maxSecond at *; unfold TimeDelta.limit
      omega,
    by
      have := a.min_le; have := b.le_max; have := b.nano_lt; have := leapAdjust_bounds a b
      unfold minSecond maxSecond at *; unfold TimeDelta.limit
      omega⟩

end Timestamp

/-- Why a timestamp cannot be truncated to a multiple of a span. -/
inductive RoundingError where
  /-- The span is not positive or has no signed 64-bit nanosecond count. -/
  | durationExceedsLimit
  /-- The local time has no signed 64-bit nanosecond count. -/
  | timestampExceedsLimit
  deriving DecidableEq, Repr

namespace RoundingError

/-- The text of a rounding error. -/
def message : RoundingError → String
  | .durationExceedsLimit => "duration exceeds num_nanoseconds limit"
  | .timestampExceedsLimit => "timestamp exceeds num_nanoseconds limit"

end RoundingError

namespace Timestamp

/-- The latest timestamp not after `t` whose local time, read as UTC nanoseconds since the
epoch, is a multiple of `span`. The offset is kept. -/
def truncate (t : Timestamp) (span : TimeDelta) : Except RoundingError Timestamp :=
  match span.toInt64Nanos? with
  | none => .error .durationExceedsLimit
  | some s =>
    if s ≤ 0 then .error .durationExceedsLimit
    else
      match t.localNanos? with
      | none => .error .timestampExceedsLimit
      | some stamp =>
        let down := stamp % s
        if down = 0 then .ok t
        else
          match TimeDelta.ofNanos? down with
          | none => .error .durationExceedsLimit
          | some d =>
            match t.subDelta? d with
            | some r => .ok r
            | none => .error .timestampExceedsLimit

/-- A count of nanoseconds that grows with the instant; the nanoseconds of a leap second
run on into the next second's count. -/
def nanoCount (t : Timestamp) : Int := t.second * 1000000000 + t.nano

/-- A bound on the steps of a walk from `start` by a positive `step` while before or at
`stop`: every step but the one that leaves a leap second moves the count forward by the
step, and a timestamp before `stop` counts less than a second past it. -/
def stepBound (start stop : Timestamp) (step : TimeDelta) : Nat :=
  ((stop.nanoCount - start.nanoCount + 2000000000) / step.nanos).toNat + 4

end Timestamp

end FrameCache
