/-!
# Double-precision values

Float columns hold IEEE 754 double-precision numbers. A `Double` keeps the 64-bit pattern
itself, so that two values are the same exactly when their bits are: a NaN keeps its
payload and `-0.0` stays apart from `0.0`. Arithmetic goes through the machine double and
comes back as bits, except for NaN results, whose bits are fixed here as the hardware gives
them: a NaN operand comes back quieted (the first one if both are NaN), and an operation
without a value (`∞ - ∞`, `0 · ∞`, `0 / 0`, `∞ / ∞`) gives the negative quiet NaN.

Comparisons follow IEEE 754: every comparison with a NaN is false and `-0.0 == 0.0`.
`Double.fmin` and `Double.fmax` pass over a NaN operand and otherwise take the second operand
unless the first is strictly smaller (larger), so of `0.0` and `-0.0` the second wins.
-/

namespace FrameCache

/-- A double-precision number, held as its IEEE 754 bit pattern. -/
structure Double where
  bits : UInt64
  deriving DecidableEq, Repr, Inhabited

namespace Double

/-- The sign bit. -/
def signBit (x : Double) : Bool := x.bits >>> 63 == 1

/-- The biased exponent field, `0..2047`. -/
def exponentField (x : Double) : Nat := ((x.bits >>> 52) &&& 0x7ff).toNat

/-- The trailing significand field, below 2⁵². -/
def fractionField (x : Double) : Nat := (x.bits &&& 0xfffffffffffff).toNat

/-- Whether the value is a NaN: all exponent bits set and a nonzero fraction. -/
def isNaN (x : Double) : Bool := x.exponentField == 2047 && x.fractionField != 0

/-- Whether the value is an infinity. -/
def isInf (x : Double) : Bool := x.exponentField == 2047 && x.fractionField == 0

/-- Whether the value is neither a NaN nor an infinity. -/
def isFinite (x : Double) : Bool := x.exponentField != 2047

/-- Whether the value is `0.0` or `-0.0`. -/
def isZero (x : Double) : Bool := x.exponentField == 0 && x.fractionField == 0

/-- The quiet NaN with a clear sign and an empty payload. -/
def nan : Double := ⟨0x7ff8000000000000⟩

/-- Positive infinity. -/
def inf : Double := ⟨0x7ff0000000000000⟩

/-- Negative infinity. -/
def negInf : Double := ⟨0xfff0000000000000⟩

/-- Positive zero. -/
def zero : Double := ⟨0⟩

/-- Negative zero. -/
def negZero : Double := ⟨0x8000000000000000⟩

/-- The machine double with these bits. -/
def toFloat (x : Double) : Float := Float.ofBits x.bits

/-- The bits of a machine double. -/
def ofFloat (f : Float) : Double := ⟨f.toBits⟩

/-- The double nearest to a natural number. -/
def ofNat (n : Nat) : Double := ofFloat (Float.ofNat n)

/-- The double nearest to an integer. -/
def ofInt (n : Int) : Double := ofFloat (Float.ofInt n)

/-- A NaN with its quiet bit set. -/
def quiet (x : Double) : Double := ⟨x.bits ||| 0x0008000000000000⟩

/-- The NaN of an operation without a value: negative and quiet. -/
def indefinite : Double := ⟨0xfff8000000000000⟩

/-- The result of an operation on `x` and `y` whose machine result is `r`: a NaN operand
passes through quieted, the first one first, and a NaN made from numbers is `indefinite`. -/
def arith (x y r : Double) : Double :=
  if x.isNaN then x.quiet else if y.isNaN then y.quiet else if r.isNaN then indefinite else r

/-- Sum, rounded to nearest. -/
def add (x y : Double) : Double := arith x y (ofFloat (x.toFloat + y.toFloat))

/-- Difference, rounded to nearest. -/
def sub (x y : Double) : Double := arith x y (ofFloat (x.toFloat - y.toFloat))

/-- Product, rounded to nearest. -/
def mul (x y : Double) : Double := arith x y (ofFloat (x.toFloat * y.toFloat))

/-- Quotient, rounded to nearest. -/
def div (x y : Double) : Double := arith x y (ofFloat (x.toFloat / y.toFloat))

/-- IEEE equality: false with a NaN, true for `0.0` and `-0.0`. -/
def eq (x y : Double) : Bool := x.toFloat == y.toFloat

/-- IEEE order `<`: false with a NaN. -/
def lt (x y : Double) : Bool := x.toFloat < y.toFloat

/-- IEEE order `≤`: false with a NaN. -/
def le (x y : Double) : Bool := x.toFloat ≤ y.toFloat

/-- The smaller of two values, passing over a NaN; on a tie the second is taken. -/
def fmin (x y : Double) : Double :=
  if x.isNaN then y else if y.isNaN then x else if lt x y then x else y

/-- The larger of two values, passing over a NaN; on a tie the second is taken. -/
def fmax (x y : Double) : Double :=
  if x.isNaN then y else if y.isNaN then x else if lt y x then x else y

/-- The value with every NaN made the quiet NaN `nan` and `-0.0` made `0.0`: two values have
the same canonical form exactly when they are both NaN or compare equal. -/
def canonical (x : Double) : Double :=
  if x.isNaN then nan else if x.isZero then zero else x

/-- The magnitude of the value truncated toward zero: the significand with its leading bit,
shifted by the exponent, and zero for every value below one. An infinity is beyond every
bound. -/
def truncatedMagnitude (x : Double) : Nat :=
  let e := x.exponentField
  if e < 1023 then 0
  else
    let m := 1 <<< 52 + x.fractionField
    if e ≤ 1075 then m >>> (1075 - e) else m <<< (e - 1075)

/-- Conversion to a 32-bit signed integer as a cast does it: NaN gives 0, and values beyond
the range give the nearest end; otherwise the value is truncated toward zero. -/
def toInt32Saturating (x : Double) : Int :=
  if x.isNaN then 0
  else if x.signBit then max (-(x.truncatedMagnitude : Int)) (-2147483648)
  else min (x.truncatedMagnitude : Int) 2147483647

end Double

end FrameCache
