/-!
# Spans of time

Two kinds of span appear in the library. A `TimeDelta` is signed, counts nanoseconds and
is bounded by ±(2⁶³ − 1) milliseconds; it is what subtracting two timestamps gives and what
can be added to one. A `Span` is unsigned, counts whole seconds up to 2⁶⁴ − 1 plus a
nanosecond part, and is how configuration states lengths such as a window or a fetch step.
`TimeDelta.ofSpan?` converts where the value fits.

Each kind has its own text: a `TimeDelta` is written in ISO 8601 duration form (`PT90S`,
`-PT0.5S`, and `P0D` for zero), a `Span` with the largest unit that keeps an integer part
(`90s`, `1.5ms`, `0ns`).
-/

namespace FrameCache

/-- Nanoseconds in one second. -/
def nanosPerSecond : Nat := 1000000000

/-- The largest signed 64-bit value. -/
def int64Max : Int := 9223372036854775807

/-- The smallest signed 64-bit value. -/
def int64Min : Int := -9223372036854775808

/-- Whether an integer is a signed 64-bit value. -/
def fitsInt64 (n : Int) : Bool := decide (int64Min ≤ n ∧ n ≤ int64Max)

theorem fitsInt64_iff {n : Int} :
    fitsInt64 n = true ↔ -9223372036854775808 ≤ n ∧ n ≤ 9223372036854775807 := by
  unfold fitsInt64 int64Min int64Max
  exact decide_eq_true_iff

/-- Every signed 64-bit integer is a signed 64-bit value. -/
theorem fitsInt64_toInt (x : Int64) : fitsInt64 x.toInt = true := by
  apply fitsInt64_iff.2
  have h1 := Int64.le_toInt x
  have h2 := Int64.toInt_lt x
  exact ⟨by omega, by omega⟩

/-- The bound of a `TimeDelta` in nanoseconds: 2⁶³ − 1 milliseconds. -/
def TimeDelta.limit : Int := 9223372036854775807000000

/-- A signed span of time, a whole number of nanoseconds of magnitude at most
`TimeDelta.limit`. -/
structure TimeDelta where
  nanos : Int
  le_limit : nanos ≤ TimeDelta.limit := by decide
  ge_neg_limit : -TimeDelta.limit ≤ nanos := by decide

namespace TimeDelta

instance : DecidableEq TimeDelta := fun a b =>
  if h : a.nanos = b.nanos then
    isTrue (by cases a; cases b; simp only at h; subst h; rfl)
  else isFalse (fun e => h (e ▸ rfl))

instance : Inhabited TimeDelta := ⟨⟨0, by decide, by decide⟩⟩

/-- The span of `n` nanoseconds, if it is within the bound. -/
def ofNanos? (n : Int) : Option TimeDelta :=
  if h : n ≤ limit ∧ -limit ≤ n then some ⟨n, h.1, h.2⟩ else none

/-- The zero span. -/
def zero : TimeDelta := ⟨0, by decide, by decide⟩

/-- The span of `s` whole seconds, for `s` below 2³². -/
def ofWholeSeconds (s : UInt32) : TimeDelta :=
  ⟨s.toNat * 1000000000,
    by have := s.toNat_lt; unfold limit; omega,
    by unfold limit; omega⟩

/-- The span of `n` nanoseconds of a signed 64-bit count, which is always within the bound. -/
def ofInt64Nanos (n : Int) (h : fitsInt64 n = true) : TimeDelta :=
  have h := fitsInt64_iff.1 h
  ⟨n, by unfold limit; omega, by unfold limit; omega⟩

instance : LT TimeDelta := ⟨fun a b => a.nanos < b.nanos⟩
instance : LE TimeDelta := ⟨fun a b => a.nanos ≤ b.nanos⟩
instance (a b : TimeDelta) : Decidable (a < b) := inferInstanceAs (Decidable (a.nanos < b.nanos))
instance (a b : TimeDelta) : Decidable (a ≤ b) := inferInstanceAs (Decidable (a.nanos ≤ b.nanos))

/-- Whole seconds, rounded toward zero. -/
def wholeSeconds (d : TimeDelta) : Int := d.nanos.tdiv nanosPerSecond

/-- The nanoseconds beyond `wholeSeconds`; they carry the sign of the span. -/
def subsecNanos (d : TimeDelta) : Int := d.nanos.tmod nanosPerSecond

/-- The span as a signed 64-bit count of nanoseconds, if it fits. -/
def toInt64Nanos? (d : TimeDelta) : Option Int :=
  if fitsInt64 d.nanos then some d.nanos else none

/-- The sum of two spans, if it is within the bound. -/
def add? (a b : TimeDelta) : Option TimeDelta := ofNanos? (a.nanos + b.nanos)

/-- The span with the opposite sign. -/
def neg (d : TimeDelta) : TimeDelta :=
  ⟨-d.nanos, by have := d.ge_neg_limit; omega, by have := d.le_limit; omega⟩

/-- Decimal digits of a natural number. -/
def digits (n : Nat) : String := toString n

/-- `n` written with at least `width` digits, padded with leading zeros. -/
def padded (width n : Nat) : String :=
  let s := digits n
  String.ofList (List.replicate (width - s.length) '0') ++ s

/-- The nine-digit fraction of a second with its trailing zeros removed. -/
def fractionText (frac : Nat) : String :=
  String.ofList ((padded 9 frac).toList.reverse.dropWhile (· == '0')).reverse

/-- ISO 8601 text: `P0D` for zero, otherwise an optional `-`, then `PT`, the whole seconds of
the magnitude, its fraction without trailing zeros if there is one, and `S`. -/
def text (d : TimeDelta) : String :=
  let sign := if d.nanos < 0 then "-" else ""
  let m := d.nanos.natAbs
  if m = 0 then "P0D"
  else
    let secs := m / nanosPerSecond
    let frac := m % nanosPerSecond
    let fracText := if frac = 0 then "" else "." ++ fractionText frac
    sign ++ "PT" ++ digits secs ++ fracText ++ "S"

example : (ofNanos? 30000000000).map text = some "PT30S" := by decide
example : (ofNanos? (-1)).map text = some "-PT0.000000001S" := by decide
example : zero.text = "P0D" := by decide

end TimeDelta

/-- The largest 64-bit unsigned value. -/
def uint64Max : Nat := 18446744073709551615

/-- An unsigned span: whole seconds below 2⁶⁴ and nanoseconds below one second. -/
structure Span where
  seconds : Nat
  nanos : Nat
  seconds_le : seconds ≤ uint64Max := by decide
  nanos_lt : nanos < nanosPerSecond := by decide

namespace Span

instance : Inhabited Span := ⟨⟨0, 0, by decide, by decide⟩⟩

/-- The span of `s` whole seconds, for `s` below 2³². -/
def ofWholeSeconds (s : UInt32) : Span :=
  ⟨s.toNat, 0, by have := s.toNat_lt; unfold uint64Max; omega, by unfold nanosPerSecond; omega⟩

/-- The span of `s` seconds and `n` nanoseconds, if `s` fits in 64 bits and `n` is below one
second. -/
def ofParts? (s n : Nat) : Option Span :=
  if h : s ≤ uint64Max ∧ n < nanosPerSecond then some ⟨s, n, h.1, h.2⟩ else none

/-- The span of `s` whole seconds. -/
def ofSeconds? (s : Nat) : Option Span := ofParts? s 0

/-- The length in nanoseconds. -/
def totalNanos (s : Span) : Nat := nanosPerSecond * s.seconds + s.nanos

/-- An integer part, a fraction whose digits are read off with `divisor` as the place of the
first one, and a unit: digits are written until the fraction is used up. -/
def decimal (whole frac divisor : Nat) (unit : String) : String :=
  let rec go (frac divisor fuel : Nat) : List Char :=
    match fuel with
    | 0 => []
    | fuel + 1 =>
      if frac = 0 || divisor = 0 then []
      else Char.ofNat (48 + frac / divisor) :: go (frac % divisor) (divisor / 10) fuel
  let fd := go frac divisor 9
  toString whole ++ (if fd.isEmpty then "" else "." ++ String.ofList fd) ++ unit

/-- The text of a span with the largest of the units `s`, `ms`, `µs`, `ns` whose integer part
is not zero (`ns` for the zero span); the fraction is written without trailing zeros. -/
def text (s : Span) : String :=
  if s.seconds > 0 then decimal s.seconds s.nanos 100000000 "s"
  else if s.nanos ≥ 1000000 then decimal (s.nanos / 1000000) (s.nanos % 1000000) 100000 "ms"
  else if s.nanos ≥ 1000 then decimal (s.nanos / 1000) (s.nanos % 1000) 100 "µs"
  else decimal s.nanos 0 1 "ns"

example : (ofParts? 86400 1).map text = some "86400.000000001s" := by decide
example : (ofParts? 0 1500000).map text = some "1.5ms" := by decide
example : (ofParts? 0 0).map text = some "0ns" := by decide

end Span

/-- The signed span of an unsigned one, if it is within the bound of a `TimeDelta`. -/
def TimeDelta.ofSpan? (s : Span) : Option TimeDelta := TimeDelta.ofNanos? s.totalNanos

end FrameCache
