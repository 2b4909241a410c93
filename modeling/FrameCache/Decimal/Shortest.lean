import FrameCache.Double

/-!
# Shortest decimal form of a double

A finite nonzero double is `m · 2^q`. The reals that round to it form an interval around it
whose ends lie halfway to its neighbours; the ends belong to the interval when `m` is even,
since a tie is rounded to the even significand. The shortest decimal form is the decimal
with the fewest significant digits inside that interval, and of two such the one nearer to
the value; an exact tie is settled by a `Tie` rule, to the even last digit or upwards.

For each count of digits `n` the decimals with `n` digits around the value lie on the grid
`10^k` with `k = p - n + 1`, where `10^p ≤ |x| < 10^(p+1)`. If any grid point lies in the
interval, so does one of the two grid points next to the value, so testing those two
decides each count. All arithmetic is exact, in natural numbers.
-/

namespace FrameCache

namespace Decimal

/-- A decimal `digits · 10^exp`. -/
structure Scientific where
  digits : Nat
  exp : Int
  deriving DecidableEq, Repr, Inhabited

/-- `10^k` for an integer `k ≥ 0`, and 1 otherwise. -/
def pow10 (k : Int) : Nat := Nat.pow 10 k.toNat

/-- The exact value of a positive finite double as a fraction `num / den` with `den` a power
of two, together with the ends of its rounding interval over the same denominator. -/
structure Bracket where
  num : Nat
  lo : Nat
  hi : Nat
  den : Nat
  inclusive : Bool

/-- The rounding interval of a finite double: significand and exponent read off the bits,
scaled by four so that the half-way points are whole; the gap below is half as wide when
the significand is the smallest of its binade. -/
def bracket (x : Double) : Bracket :=
  let e := x.exponentField
  let f := x.fractionField
  let (m, q) : Nat × Int := if e = 0 then (f, -1074) else (f + Nat.pow 2 52, (e : Int) - 1075)
  let lowGap := if f = 0 && e > 1 then 1 else 2
  let e2 := q - 2
  let scale := if e2 ≥ 0 then Nat.pow 2 e2.toNat else 1
  let den := if e2 ≥ 0 then 1 else Nat.pow 2 (-e2).toNat
  { num := 4 * m * scale, lo := (4 * m - lowGap) * scale, hi := (4 * m + 2) * scale,
    den := den, inclusive := m % 2 == 0 }

/-- Compares `d · 10^k` with `x / den`. -/
def cmpGrid (d : Nat) (k : Int) (x den : Nat) : Ordering :=
  if k ≥ 0 then compare (d * pow10 k * den) x else compare (d * den) (x * pow10 (-k))

/-- `⌊x / (den · 10^k)⌋`. -/
def gridFloor (x den : Nat) (k : Int) : Nat :=
  if k ≥ 0 then x / (den * pow10 k) else x * pow10 (-k) / den

/-- The exponent `p` with `10^p ≤ x / den < 10^(p+1)`, for `x > 0`: an estimate from the
binary lengths, corrected by exact comparisons. -/
def decimalExponent (x den : Nat) : Int :=
  let b : Int := (Nat.log2 x : Int) - (Nat.log2 den : Int)
  let est : Int := (b * 30103) / 100000
  -- `10^p ≤ x / den`
  let fits (p : Int) : Bool := cmpGrid 1 p x den != .gt
  let rec up (p : Int) (fuel : Nat) : Int :=
    match fuel with
    | 0 => p
    | fuel + 1 => if fits (p + 1) then up (p + 1) fuel else p
  let rec down (p : Int) (fuel : Nat) : Int :=
    match fuel with
    | 0 => p
    | fuel + 1 => if fits p then p else down (p - 1) fuel
  up (down est 8) 8

/-- Whether `d · 10^k` is inside the rounding interval. -/
def Bracket.admits (b : Bracket) (d : Nat) (k : Int) : Bool :=
  let above := cmpGrid d k b.lo b.den
  let below := cmpGrid d k b.hi b.den
  (above == .gt || (b.inclusive && above == .eq)) && (below == .lt || (b.inclusive && below == .eq))

/-- How an exact tie between the two nearest decimals of the shortest length is settled. -/
inductive Tie where
  /-- The decimal whose last digit is even. -/
  | toEven
  /-- The decimal of larger magnitude. -/
  | up
  deriving DecidableEq, Repr

/-- The nearer of `lo · 10^k` and `(lo + 1) · 10^k` to `x / den`; a tie goes as `tie` says. -/
def nearer (tie : Tie) (lo : Nat) (k : Int) (x den : Nat) : Nat :=
  -- distances scaled by `den` (and by `10^-k` for a negative `k`)
  let (below, above) :=
    if k ≥ 0 then (x - lo * pow10 k * den, (lo + 1) * pow10 k * den - x)
    else (x * pow10 (-k) - lo * den, (lo + 1) * den - x * pow10 (-k))
  if below < above then lo else if above < below then lo + 1
  else match tie with
    | .toEven => if lo % 2 == 0 then lo else lo + 1
    | .up => lo + 1

/-- Removes trailing zero digits, moving them into the exponent. -/
def Scientific.trim (s : Scientific) : Scientific :=
  let rec go (d : Nat) (e : Int) (fuel : Nat) : Scientific :=
    match fuel with
    | 0 => ⟨d, e⟩
    | fuel + 1 => if d != 0 && d % 10 == 0 then go (d / 10) (e + 1) fuel else ⟨d, e⟩
  go s.digits s.exp 20

/-- The shortest decimal inside the rounding interval of a positive finite double, the
nearest one of that length, a tie settled by `tie`. -/
def shortestOf (tie : Tie) (b : Bracket) : Scientific :=
  let p := decimalExponent b.num b.den
  let rec search (n fuel : Nat) : Scientific :=
    match fuel with
    | 0 => ⟨gridFloor b.num b.den (p - 16), p - 16⟩
    | fuel + 1 =>
      let k : Int := p - n + 1
      let lo := gridFloor b.num b.den k
      let okLo := b.admits lo k
      let okHi := b.admits (lo + 1) k
      if okLo && okHi then ⟨nearer tie lo k b.num b.den, k⟩
      else if okLo then ⟨lo, k⟩
      else if okHi then ⟨lo + 1, k⟩
      else search (n + 1) fuel
  (search 1 17).trim

/-- The shortest decimal form of the magnitude of a finite nonzero double, a tie settled by
`tie`. -/
def shortest (tie : Tie) (x : Double) : Scientific := shortestOf tie (bracket x)

example : shortest .toEven ⟨0x3ff199999999999a⟩ = ⟨11, -1⟩ := by decide +kernel
example : shortest .toEven ⟨1⟩ = ⟨5, -324⟩ := by decide +kernel
example : shortest .toEven ⟨0x3ff0000800000000⟩ = ⟨10000076293945312, -16⟩ := by decide +kernel
example : shortest .up ⟨0x3ff0000800000000⟩ = ⟨10000076293945313, -16⟩ := by decide +kernel

end Decimal

end FrameCache
