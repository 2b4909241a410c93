import FrameCache.Decimal.Shortest

/-!
# Written forms of a double

Both forms write the shortest decimal of the value; they differ in where they place it and
in how they settle an exact tie between two shortest decimals.

* `Double.jsonText`, the form of a number in JSON output: positional while the decimal
  point lies within the first 16 digits, with `.0` after a whole number; otherwise one digit,
  the rest after a point, and `e` with the signed exponent (`1e+16`, `1.5e-7`). Zero is `0.0`.
  A tie goes to the even last digit.
* `Double.plainText`, the form of a number in messages: always positional, padded with
  zeros, and no `.0` after a whole number (`10`, `0.0000001`). Zero is `0`; the texts of the
  special values are `NaN`, `inf` and `-inf`. A tie goes upwards (`1.0000076293945313` for
  1 + 2⁻¹⁷).

Both put `-` before a negative value, also before `-0.0`.
-/

namespace FrameCache

namespace Decimal

/-- Where the point goes: `digits` in positional notation with the point after position
`point` of the digit string (zeros are added on either side as needed), and `.0` after a
whole number when `wholeSuffix` holds. -/
def positional (ds : String) (point : Int) (wholeSuffix : Bool) : String :=
  let len : Int := ds.length
  if point ≤ 0 then "0." ++ String.ofList (List.replicate (-point).toNat '0') ++ ds
  else if point < len then
    String.ofList (ds.toList.take point.toNat) ++ "." ++ String.ofList (ds.toList.drop point.toNat)
  else ds ++ String.ofList (List.replicate (point - len).toNat '0') ++ (if wholeSuffix then ".0" else "")

/-- One digit, then the others after a point if there are any, then `e` and the exponent,
which always carries its sign (`e+16`, `e-7`). -/
def exponential (ds : String) (e : Int) : String :=
  let rest := String.ofList (ds.toList.drop 1)
  String.ofList (ds.toList.take 1) ++ (if rest.isEmpty then "" else "." ++ rest) ++ "e" ++
    (if e < 0 then "-" else "+") ++ toString e.natAbs

/-- The JSON placement of a nonzero decimal: positional when the point falls after at most
16 digits and no more than 5 places before the first digit, exponential otherwise. -/
def jsonPlacement (s : Scientific) : String :=
  let ds := toString s.digits
  let point : Int := ds.length + s.exp
  if -5 < point && point ≤ 16 then positional ds point true else exponential ds (point - 1)

end Decimal

namespace Double

/-- The JSON text of a finite value. -/
def jsonText (x : Double) : String :=
  let sign := if x.signBit then "-" else ""
  if x.isZero then sign ++ "0.0" else sign ++ Decimal.jsonPlacement (Decimal.shortest .toEven x)

/-- The text of a value in messages: always positional, no `.0` after a whole number. -/
def plainText (x : Double) : String :=
  if x.isNaN then "NaN"
  else
    let sign := if x.signBit then "-" else ""
    if x.isInf then sign ++ "inf"
    else if x.isZero then sign ++ "0"
    else
      let s := Decimal.shortest .up x
      let ds := toString s.digits
      sign ++ Decimal.positional ds (ds.length + s.exp) false

example : jsonText ⟨0x3ff0000000000000⟩ = "1.0" := by decide +kernel
example : plainText ⟨0x4024000000000000⟩ = "10" := by decide +kernel

end Double

end FrameCache
