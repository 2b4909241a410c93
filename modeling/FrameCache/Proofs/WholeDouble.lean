import Mathlib
import FrameCache.Decimal.Read

/-!
# Whole numbers as doubles

A whole number `n` below `2^53` is a double exactly: its biased exponent is `1023 + log₂ n`
and its significand is `n` shifted up to 53 bits, so `Decimal.toDouble` loses nothing on it.
The saturating cast to a 32-bit integer shifts the significand back down and so reads such a
number back whenever it lies in the 32-bit range (`toInt32Saturating_toDouble`).
-/

namespace FrameCache

namespace Decimal

section Whole

variable {n : Nat}

/-- The bit length of a positive number below `2^53` is at most 53. -/
theorem log2_le_of_lt (h0 : 0 < n) (h53 : n < 2 ^ 53) : n.log2 ≤ 52 :=
  Nat.lt_succ_iff.1 ((Nat.log2_lt (by omega)).2 h53)

/-- Shifting a number of bit length `L + 1` up by `52 - L` puts it in `[2^52, 2^53)`. -/
theorem shifted_bounds (h0 : 0 < n) (h53 : n < 2 ^ 53) :
    2 ^ 52 ≤ n * 2 ^ (52 - n.log2) ∧ n * 2 ^ (52 - n.log2) < 2 ^ 53 := by
  have hL := log2_le_of_lt h0 h53
  have hlo : 2 ^ n.log2 * 2 ^ (52 - n.log2) = 2 ^ 52 := by
    rw [← Nat.pow_add]; congr 1; omega
  have hhi : 2 ^ (n.log2 + 1) * 2 ^ (52 - n.log2) = 2 ^ 53 := by
    rw [← Nat.pow_add]; congr 1; omega
  have hpos : 0 < 2 ^ (52 - n.log2) := Nat.two_pow_pos _
  constructor
  · rw [← hlo]
    exact Nat.mul_le_mul_right _ (Nat.log2_self_le (by omega))
  · rw [← hhi]
    exact Nat.mul_lt_mul_of_pos_right Nat.lt_log2_self hpos

/-- For a whole number the estimate of the scale is exact: at `log₂ n - 52` the number has 53
bits and at one more it has 52. -/
theorem scaleExponent_whole (h0 : 0 < n) (h53 : n < 2 ^ 53) :
    scaleExponent n 1 = (n.log2 : Int) - 52 := by
  have hL := log2_le_of_lt h0 h53
  have hb := shifted_bounds h0 h53
  have hlog : ((Nat.log2 1 : Nat) : Int) = 0 := by rw [show Nat.log2 1 = 0 by decide]; rfl
  have hsmall : n < 2 ^ (n.log2 + 1) := Nat.lt_log2_self
  -- at the estimate the scaled number reaches `2^52`
  have hat : atLeastScaled n 1 ((n.log2 : Int) - 52) = true := by
    by_cases h52 : n.log2 = 52
    · have hk : (n.log2 : Int) - 52 = 0 := by omega
      have hlo : 2 ^ 52 ≤ n := h52 ▸ Nat.log2_self_le (by omega)
      rw [hk]
      simp only [atLeastScaled, ge_iff_le, Int.le_refl, if_true, decide_eq_true_eq]
      show 2 ^ 52 * 1 * 2 ^ 0 ≤ n
      omega
    · have hneg : ¬ ((n.log2 : Int) - 52 ≥ 0) := by omega
      have hexp : (-((n.log2 : Int) - 52)).toNat = 52 - n.log2 := by omega
      simp only [atLeastScaled, hneg, if_false, hexp, Nat.pow_eq, Nat.mul_one, decide_eq_true_eq]
      exact hb.1
  -- one step further it falls short of `2^52`
  have hnot : atLeastScaled n 1 ((n.log2 : Int) - 52 + 1) = false := by
    by_cases h51 : 51 ≤ n.log2
    · have hexp : ((n.log2 : Int) - 52 + 1).toNat = n.log2 - 51 := by omega
      have hpow : 2 ^ 52 * 1 * 2 ^ (n.log2 - 51) = 2 ^ (n.log2 + 1) := by
        rw [Nat.mul_one, ← Nat.pow_add]; congr 1; omega
      simp only [atLeastScaled, show (n.log2 : Int) - 52 + 1 ≥ 0 by omega, if_true, hexp,
        Nat.pow_eq, hpow, decide_eq_false_iff_not, ge_iff_le, Nat.not_le]
      exact hsmall
    · have hexp : (-((n.log2 : Int) - 52 + 1)).toNat = 51 - n.log2 := by omega
      have hpow : 2 ^ (n.log2 + 1) * 2 ^ (51 - n.log2) = 2 ^ 52 := by
        rw [← Nat.pow_add]; congr 1; omega
      have hlt : n * 2 ^ (51 - n.log2) < 2 ^ 52 := by
        rw [← hpow]
        exact Nat.mul_lt_mul_of_pos_right hsmall (Nat.two_pow_pos _)
      simp only [atLeastScaled, show ¬ ((n.log2 : Int) - 52 + 1 ≥ 0) by omega, if_false, hexp,
        Nat.pow_eq, Nat.mul_one, decide_eq_false_iff_not, ge_iff_le, Nat.not_le]
      exact hlt
  simp only [scaleExponent, hlog, Int.sub_zero, hat, hnot, if_true, Bool.false_eq_true, if_false]
  rw [if_neg (by omega)]

/-- Rounding a whole number at its own scale leaves it unchanged, shifted to 53 bits. -/
theorem scaledQuotient_whole (h0 : 0 < n) (h53 : n < 2 ^ 53) :
    scaledQuotient n 1 ((n.log2 : Int) - 52) = n * 2 ^ (52 - n.log2) := by
  have hL := log2_le_of_lt h0 h53
  have hround (m : Nat) : roundHalfEven m 1 = m := by
    simp only [roundHalfEven, Nat.div_one, Nat.mod_one, Nat.mul_zero, Nat.zero_lt_one, if_true]
  by_cases h52 : n.log2 = 52
  · have hk : (n.log2 : Int) - 52 = 0 := by omega
    rw [hk, h52]
    simp only [scaledQuotient, ge_iff_le, Int.le_refl, if_true]
    show roundHalfEven n (1 * 2 ^ 0) = n * 2 ^ 0
    rw [Nat.pow_zero, Nat.mul_one, Nat.mul_one, hround]
  · have hexp : (-((n.log2 : Int) - 52)).toNat = 52 - n.log2 := by omega
    simp only [scaledQuotient, show ¬ ((n.log2 : Int) - 52 ≥ 0) by omega, if_false, hexp,
      Nat.pow_eq, hround]

/-- A significand of exactly 53 bits at a scale of the normal range is packed as it is. -/
theorem packBits_normal {q : Nat} {k : Int} (hlo : 2 ^ 52 ≤ q) (hhi : q < 2 ^ 53) (hk : k ≤ 971) :
    packBits q k = (((k + 1075).toNat * 2 ^ 52) + (q - 2 ^ 52)).toUInt64 := by
  simp only [packBits, Nat.pow_eq, ge_iff_le, show ¬ 2 ^ 53 ≤ q by omega, if_false,
    show ¬ k > 971 by omega, show ¬ q < 2 ^ 52 by omega]

/-- The bits of a positive whole number below `2^53`: exponent `1023 + log₂ n` and the number
shifted to 53 bits as significand. -/
theorem nearestBits_whole (h0 : 0 < n) (h53 : n < 2 ^ 53) :
    nearestBits n 1 = ((n.log2 + 1023) * 2 ^ 52 + (n * 2 ^ (52 - n.log2) - 2 ^ 52)).toUInt64 := by
  have hL := log2_le_of_lt h0 h53
  have hb := shifted_bounds h0 h53
  have hexp : ((n.log2 : Int) - 52 + 1075).toNat = n.log2 + 1023 := by omega
  rw [nearestBits, scaleExponent_whole h0 h53, scaledQuotient_whole h0 h53,
    packBits_normal hb.1 hb.2 (by omega), hexp]

/-- The number of decimal digits of a number below `2^53`. -/
theorem length_toString_le (h53 : n < 2 ^ 53) : (toString n).length ≤ 16 := by
  rw [Nat.toString_eq_repr, Nat.repr, String.length_ofList]
  exact (Nat.length_toDigits_le_iff (by decide) (by decide)).2 (by omega)

end Whole

end Decimal

namespace Double

/-- Setting the sign bit of bits below it adds `2^63`. -/
theorem signBit_or_eq_add {x : Nat} (h : x < 2 ^ 63) : 2 ^ 63 ||| x = 2 ^ 63 + x := by
  have hor := Nat.two_pow_add_eq_or_of_lt h 1
  rw [Nat.mul_one] at hor
  exact hor.symm

/-- The sign, exponent and fraction fields of a double, read off the number its bits stand
for. -/
theorem fields_of_toNat {x : Double} {s e f : Nat} (he : e < 2048)
    (hf : f < 2 ^ 52) (h : x.bits.toNat = s * 2 ^ 63 + e * 2 ^ 52 + f) :
    x.signBit = (s == 1) ∧ x.exponentField = e ∧ x.fractionField = f := by
  have hsign : (x.bits >>> 63).toNat = s := by
    rw [UInt64.toNat_shiftRight, h, Nat.shiftRight_eq_div_pow]
    simp only [UInt64.toNat_ofNat, Nat.reducePow, Nat.reduceMod]
    omega
  refine ⟨?_, ?_, ?_⟩
  · rw [signBit, Bool.eq_iff_iff, beq_iff_eq, beq_iff_eq, ← UInt64.toNat_inj, hsign]
    rfl
  · rw [exponentField, UInt64.toNat_and, UInt64.toNat_shiftRight, h, Nat.shiftRight_eq_div_pow,
      show (0x7ff : UInt64).toNat = 2 ^ 11 - 1 from rfl, Nat.and_two_pow_sub_one_eq_mod]
    simp only [UInt64.toNat_ofNat, Nat.reducePow, Nat.reduceMod]
    omega
  · rw [fractionField, UInt64.toNat_and, h,
      show (0xfffffffffffff : UInt64).toNat = 2 ^ 52 - 1 from rfl, Nat.and_two_pow_sub_one_eq_mod]
    omega

end Double

namespace Decimal

/-- The bits of the double of a whole number below `2^53`, as a number: the sign, the exponent
`1023 + log₂ n` (zero for zero) and the fraction of the shifted number. -/
theorem toNat_bits_toDouble (negative : Bool) {n : Nat} (h53 : n < 2 ^ 53) :
    (toDouble negative n 0).bits.toNat =
      (if negative then 1 else 0) * 2 ^ 63 +
        (if n = 0 then 0 else
          (n.log2 + 1023) * 2 ^ 52 + (n * 2 ^ (52 - n.log2) - 2 ^ 52)) := by
  have hsign : (if negative then (0x8000000000000000 : UInt64) else 0).toNat =
      (if negative then 1 else 0) * 2 ^ 63 := by
    cases negative <;> rfl
  by_cases h0 : n = 0
  · subst h0
    simp only [toDouble, decide_true, Bool.true_or, ↓reduceIte]
    rw [hsign, Nat.add_zero]
  · have hpos : 0 < n := Nat.pos_of_ne_zero h0
    have hL := log2_le_of_lt hpos h53
    have hb := shifted_bounds hpos h53
    have hlen := length_toString_le h53
    -- the exponent and fraction lie below the sign bit, so `|||` adds them
    have hval : ((n.log2 + 1023) * 2 ^ 52 + (n * 2 ^ (52 - n.log2) - 2 ^ 52)) < 2 ^ 63 := by
      have : (n.log2 + 1023) * 2 ^ 52 ≤ 1075 * 2 ^ 52 := Nat.mul_le_mul_right _ (by omega)
      omega
    simp only [toDouble, h0, decide_false, Bool.false_or, if_false, Int.add_zero, ge_iff_le, Int.le_refl, if_true, Int.toNat_zero, Nat.pow_eq, Nat.pow_zero,
      Nat.mul_one]
    rw [if_neg (by rw [decide_eq_true_iff]; omega), if_neg (by omega), nearestBits_whole hpos h53, UInt64.toNat_or, hsign,
      Nat.toUInt64_eq, UInt64.toNat_ofNat', Nat.mod_eq_of_lt (by omega)]
    cases negative
    · simp only [Bool.false_eq_true, if_false, Nat.zero_mul, Nat.zero_or, Nat.zero_add]
    · simp only [if_true, Nat.one_mul]
      exact Double.signBit_or_eq_add hval

/-- The magnitude of the double of a whole number below `2^53`, truncated, is the number. -/
theorem truncatedMagnitude_toDouble (negative : Bool) {n : Nat} (h53 : n < 2 ^ 53) :
    (toDouble negative n 0).truncatedMagnitude = n ∧
      (toDouble negative n 0).signBit = negative ∧ (toDouble negative n 0).isNaN = false := by
  have hbits := toNat_bits_toDouble negative h53
  by_cases h0 : n = 0
  · subst h0
    simp only [if_true] at hbits
    obtain ⟨hs, he, hf⟩ := Double.fields_of_toNat (x := toDouble negative 0 0)
      (s := if negative then 1 else 0) (e := 0) (f := 0)
      (by decide) (by decide) (hbits.trans (by rw [Nat.zero_mul, Nat.add_zero]))
    refine ⟨?_, ?_, ?_⟩
    · simp only [Double.truncatedMagnitude, he, show (0 : Nat) < 1023 by decide, if_true]
    · cases negative <;> rw [hs] <;> rfl
    · simp only [Double.isNaN, he, hf]
      rfl
  · have hpos : 0 < n := Nat.pos_of_ne_zero h0
    have hL := log2_le_of_lt hpos h53
    have hb := shifted_bounds hpos h53
    simp only [h0, if_false] at hbits
    obtain ⟨hs, he, hf⟩ := Double.fields_of_toNat (x := toDouble negative n 0)
      (s := if negative then 1 else 0) (e := n.log2 + 1023)
      (f := n * 2 ^ (52 - n.log2) - 2 ^ 52) (by omega) (by omega)
      (hbits.trans (Nat.add_assoc _ _ _).symm)
    refine ⟨?_, ?_, ?_⟩
    · -- the significand with its leading bit is the shifted number, shifted back
      have hm : 2 ^ 52 + (n * 2 ^ (52 - n.log2) - 2 ^ 52) = n * 2 ^ (52 - n.log2) := by omega
      simp only [Double.truncatedMagnitude, he, hf, show ¬ n.log2 + 1023 < 1023 by omega,
        if_false, show n.log2 + 1023 ≤ 1075 by omega, if_true, Nat.one_shiftLeft, hm,
        show 1075 - (n.log2 + 1023) = 52 - n.log2 by omega, Nat.shiftRight_eq_div_pow]
      exact Nat.mul_div_cancel _ (Nat.two_pow_pos _)
    · cases negative <;> rw [hs] <;> rfl
    · simp only [Double.isNaN, he, hf, show (n.log2 + 1023 == 2047) = false by
        simp only [beq_eq_false_iff_ne]; omega, Bool.false_and]

/-- The saturating cast reads back a whole number of the 32-bit range stored as a double. -/
theorem toInt32Saturating_toDouble (negative : Bool) {n : Nat} (hn : n < 2 ^ 31) :
    (toDouble negative n 0).toInt32Saturating = if negative then -(n : Int) else n := by
  obtain ⟨hm, hs, hnan⟩ := truncatedMagnitude_toDouble negative (n := n) (by omega)
  cases negative
  · simp only [Double.toInt32Saturating, hnan, hs, hm, Bool.false_eq_true, if_false]
    omega
  · simp only [Double.toInt32Saturating, hnan, hs, hm, Bool.false_eq_true, if_false, if_true]
    omega

end Decimal

end FrameCache
