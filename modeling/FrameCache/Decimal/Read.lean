import FrameCache.Double

/-!
# The double nearest to a decimal

`Decimal.toDouble` reads `±digits · 10^exp` as the double nearest to it, a tie going to the
even significand. The value is scaled into a 53-bit significand by a power of two and
rounded once, in exact natural arithmetic; below the normal range the scale stops at
`2^-1074`, which rounds into a subnormal. Values beyond the largest double become infinite.
-/

namespace FrameCache

namespace Decimal

/-- `⌊num / den⌋` rounded to nearest, a tie going to the even result. -/
def roundHalfEven (num den : Nat) : Nat :=
  let q := num / den
  let r := num % den
  if 2 * r < den then q else if 2 * r > den then q + 1 else if q % 2 == 0 then q else q + 1

/-- Whether `num / (den · 2^k)` is at least `2^52`. -/
def atLeastScaled (num den : Nat) (k : Int) : Bool :=
  if k ≥ 0 then num ≥ Nat.pow 2 52 * den * Nat.pow 2 k.toNat
  else num * Nat.pow 2 (-k).toNat ≥ Nat.pow 2 52 * den

/-- The power of two that brings `num / den` into `[2^52, 2^53)`, but not below `-1074`, where
the subnormals start. -/
def scaleExponent (num den : Nat) : Int :=
  -- an estimate from the bit lengths, off by at most one either way
  let est : Int := (Nat.log2 num : Int) - (Nat.log2 den : Int) - 52
  let k := if atLeastScaled num den est then (if atLeastScaled num den (est + 1) then est + 1 else est)
    else est - 1
  if k < -1074 then -1074 else k

/-- `num / (den · 2^k)` rounded to nearest, a tie going to the even result. -/
def scaledQuotient (num den : Nat) (k : Int) : Nat :=
  if k ≥ 0 then roundHalfEven num (den * Nat.pow 2 k.toNat)
  else roundHalfEven (num * Nat.pow 2 (-k).toNat) den

/-- The bits of the positive double `q · 2^k` for a significand `q` below `2^53` after rounding,
which may have carried it to `2^53`; beyond the largest double it is infinite, and below
`2^52` it is a subnormal. -/
def packBits (q : Nat) (k : Int) : UInt64 :=
  let (q, k) := if q ≥ Nat.pow 2 53 then (q / 2, k + 1) else (q, k)
  if k > 971 then 0x7ff0000000000000
  else if q < Nat.pow 2 52 then q.toUInt64
  else (((k + 1075).toNat * Nat.pow 2 52) + (q - Nat.pow 2 52)).toUInt64

/-- The bits of the positive double nearest to `num / den` (both positive). -/
def nearestBits (num den : Nat) : UInt64 :=
  let k := scaleExponent num den
  packBits (scaledQuotient num den k) k

/-- The double nearest to `±digits · 10^exp`. -/
def toDouble (negative : Bool) (digits : Nat) (exp : Int) : Double :=
  let sign : UInt64 := if negative then 0x8000000000000000 else 0
  let len := (toString digits).length
  if digits = 0 || (len : Int) + exp < -326 then ⟨sign⟩
  else if (len : Int) + exp > 310 then ⟨sign ||| 0x7ff0000000000000⟩
  else
    let bits := if exp ≥ 0 then nearestBits (digits * Nat.pow 10 exp.toNat) 1
      else nearestBits digits (Nat.pow 10 (-exp).toNat)
    ⟨sign ||| bits⟩

example : toDouble false 11 (-1) = ⟨0x3ff199999999999a⟩ := by decide +kernel
example : toDouble false 5 (-324) = ⟨1⟩ := by decide +kernel
example : toDouble true 35 8 = ⟨0xc1ea13b860000000⟩ := by decide +kernel

end Decimal

end FrameCache
