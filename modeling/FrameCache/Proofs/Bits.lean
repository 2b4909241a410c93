import Mathlib
import FrameCache.Codec.Bits

/-!
# Bit streams as lists of bits

The bytes of a writer stand for the list of bits written so far, `BitWriter.bits`: bit `i`
is bit `7 - i % 8` of byte `i / 8`. In a valid writer the bits after them, up to the end of
the last byte, are zero. Every write appends to that list: one bit, or the low `n` bits of
a number, highest first (`BitWriter.bitsOf`).

A reader placed where a list of bits is held (`BitReader.Holds`) reads them back: one bit as
itself, and `n ≤ 64` bits as the number they spell. A writer's bytes hold its bits from the
start, so whatever a sequence of writes appends can be read back in the same order.
-/

namespace FrameCache

namespace BitReader

theorem testBit_byte (b : UInt8) {k : Nat} (hk : k < 8) :
    ((b >>> k.toUInt8) &&& 1 == 1) = b.toNat.testBit k := by
  rw [Bool.eq_iff_iff, beq_iff_eq, ← UInt8.toNat_inj]
  simp [Nat.mod_eq_of_lt hk, Nat.testBit_eq_decide_div_mod_eq, Nat.shiftRight_eq_div_pow]

theorem testBit_word (v : UInt64) {k : Nat} (hk : k < 64) :
    ((v >>> k.toUInt64) &&& 1 == 1) = v.toNat.testBit k := by
  rw [Bool.eq_iff_iff, beq_iff_eq, ← UInt64.toNat_inj]
  simp [Nat.mod_eq_of_lt hk, Nat.testBit_eq_decide_div_mod_eq, Nat.shiftRight_eq_div_pow]

/-- Bit `i` of the stream is bit `7 - i % 8` of byte `i / 8`, and false past the bytes. -/
theorem bitAt_eq (data : Array UInt8) (i : Nat) :
    bitAt data i =
      if h : i / 8 < data.size then data[i / 8].toNat.testBit (7 - i % 8) else false := by
  unfold bitAt
  by_cases h : i / 8 < data.size
  · simp only [Array.getElem?_eq_getElem h, dif_pos h]
    exact testBit_byte _ (by omega)
  · simp [Array.getElem?_eq_none (Nat.le_of_not_lt h), dif_neg h]

theorem bitAt_push_zero (data : Array UInt8) (i : Nat) :
    bitAt (data.push 0) i = bitAt data i := by
  rw [bitAt_eq, bitAt_eq]
  by_cases h : i / 8 < data.size
  · simp [h, Array.getElem_push_lt, Nat.lt_succ_of_lt h]
  · by_cases h' : i / 8 = data.size
    · simp [h']
    · simp [h]
      omega

theorem toNat_one_shiftLeft {k : Nat} (hk : k < 8) :
    ((1 : UInt8) <<< k.toUInt8).toNat = 2 ^ k := by
  have h2 : 2 ^ k < 256 := Nat.lt_of_lt_of_le (Nat.pow_lt_pow_right (by omega) hk) (by decide)
  simp [Nat.mod_eq_of_lt hk, Nat.shiftLeft_eq, Nat.mod_eq_of_lt h2]

/-- Setting bit `k` of byte `j` sets exactly the bit at `8 j + 7 - k` of the stream. -/
theorem bitAt_modify_or (data : Array UInt8) {j k : Nat} {m : UInt8} (hj : j < data.size)
    (hk : k < 8) (hm : m.toNat = 2 ^ k) (i : Nat) :
    bitAt (data.modify j (· ||| m)) i = (bitAt data i || i == j * 8 + (7 - k)) := by
  rw [bitAt_eq, bitAt_eq]
  by_cases h : i / 8 < data.size
  · simp only [Array.size_modify, dif_pos h, Array.getElem_modify]
    by_cases hij : j = i / 8
    · subst hij
      have hpos : decide (k = 7 - i % 8) = (i == i / 8 * 8 + (7 - k)) := by
        rw [Bool.eq_iff_iff]
        simp only [decide_eq_true_eq, beq_iff_eq]
        omega
      simp [hm, Nat.testBit_two_pow, hpos]
    · simp [hij]
      omega
  · simp [h]
    omega

/-- Or-ing a mask into byte `j` adds the mask's bits, highest first, at the bits of that byte. -/
theorem bitAt_modify_or_mask (data : Array UInt8) {j : Nat} (hj : j < data.size) (m : UInt8)
    (i : Nat) :
    bitAt (data.modify j (· ||| m)) i =
      (bitAt data i || (decide (i / 8 = j) && m.toNat.testBit (7 - i % 8))) := by
  rw [bitAt_eq, bitAt_eq]
  by_cases h : i / 8 < data.size
  · simp only [Array.size_modify, dif_pos h, Array.getElem_modify]
    by_cases hij : j = i / 8
    · subst hij
      simp [UInt8.toNat_or, Nat.testBit_or]
    · simp [hij, Ne.symm hij]
  · simp [h]
    omega

/-- Pushing a byte puts its bits, highest first, after those of the bytes before it. -/
theorem bitAt_push (data : Array UInt8) (b : UInt8) (i : Nat) :
    bitAt (data.push b) i =
      if i / 8 < data.size then bitAt data i
      else decide (i / 8 = data.size) && b.toNat.testBit (7 - i % 8) := by
  rw [bitAt_eq, bitAt_eq]
  by_cases h : i / 8 < data.size
  · simp [h, Array.getElem_push_lt, Nat.lt_succ_of_lt h]
  · by_cases h' : i / 8 = data.size
    · simp [h']
    · simp [h, h']
      omega

/-- Past the bytes there are no bits. -/
theorem bitAt_of_size_le {data : Array UInt8} {i : Nat} (h : data.size ≤ i / 8) : bitAt data i = false := by
  rw [bitAt_eq, dif_neg (by omega)]

/-- A byte has no bits from the eighth on. -/
theorem testBit_byte_eq_false (b : UInt8) {j : Nat} (hj : 8 ≤ j) : b.toNat.testBit j = false :=
  Nat.testBit_lt_two_pow (Nat.lt_of_lt_of_le b.toNat_lt (Nat.pow_le_pow_right (by omega) hj))

/-- A byte shifted right by `s < 8` has at `j` the byte's bit `s + j`. -/
theorem testBit_shiftRight_byte (b : UInt8) {s : Nat} (hs : s < 8) (j : Nat) :
    (b >>> s.toUInt8).toNat.testBit j = b.toNat.testBit (s + j) := by
  rw [UInt8.toNat_shiftRight]
  simp [Nat.mod_eq_of_lt hs, Nat.mod_eq_of_lt (show s < 256 by omega), Nat.testBit_shiftRight]

/-- A byte shifted left by `s < 8` has at `j < 8` the byte's bit `j - s`, and zeros below `s`. -/
theorem testBit_shiftLeft_byte (b : UInt8) {s j : Nat} (hs : s < 8) (hj : j < 8) :
    (b <<< s.toUInt8).toNat.testBit j = (decide (s ≤ j) && b.toNat.testBit (j - s)) := by
  rw [UInt8.toNat_shiftLeft, Nat.testBit_mod_two_pow]
  simp [Nat.mod_eq_of_lt hs, Nat.mod_eq_of_lt (show s < 256 by omega), Nat.testBit_shiftLeft, hj]

/-- A word shifted left by `s < 64` has at `j < 64` the word's bit `j - s`, and zeros below `s`. -/
theorem testBit_shiftLeft_word (v s : UInt64) (hs : s.toNat < 64) {j : Nat} (hj : j < 64) :
    (v <<< s).toNat.testBit j = (decide (s.toNat ≤ j) && v.toNat.testBit (j - s.toNat)) := by
  rw [UInt64.toNat_shiftLeft, Nat.testBit_mod_two_pow]
  simp [Nat.mod_eq_of_lt hs, Nat.testBit_shiftLeft, hj]

end BitReader

namespace BitWriter

/-- The number of bits written. -/
def bitLength (w : BitWriter) : Nat := w.bytes.size * 8 - w.free

/-- The bits written so far, in order. -/
def bits (w : BitWriter) : List Bool := (List.range w.bitLength).map (BitReader.bitAt w.bytes)

/-- The low `n` bits of `v`, highest first: what `writeBits v n` appends. -/
def bitsOf (v : UInt64) (n : Nat) : List Bool :=
  (List.range n).map fun i => (v >>> (n - 1 - i).toUInt64) &&& 1 == 1

/-- A writer with fewer than eight free bits in its last byte, all of them zero. -/
structure Valid (w : BitWriter) : Prop where
  free_lt : w.free < 8
  free_le : w.free ≤ w.bytes.size * 8
  padding : ∀ i, w.bitLength ≤ i → BitReader.bitAt w.bytes i = false

@[simp] theorem length_bits (w : BitWriter) : w.bits.length = w.bitLength := by
  simp [bits]

@[simp] theorem length_bitsOf (v : UInt64) (n : Nat) : (bitsOf v n).length = n := by
  simp [bitsOf]

theorem valid_empty : (empty : BitWriter).Valid :=
  ⟨by decide, by decide, fun _ _ => by simp [empty, BitReader.bitAt]⟩

@[simp] theorem bits_empty : (empty : BitWriter).bits = [] := rfl

variable {w : BitWriter}

theorem writeBit_of_free_eq_zero (h : w.free = 0) (b : Bool) :
    w.writeBit b =
      { bytes := if b then (w.bytes.push 0).modify w.bytes.size (· ||| ((1 : UInt8) <<< (7 : Nat).toUInt8))
          else w.bytes.push 0,
        free := 7 } := by
  simp [writeBit, h]

theorem writeBit_of_free_pos (h : w.free ≠ 0) (b : Bool) :
    w.writeBit b =
      { bytes := if b then w.bytes.modify (w.bytes.size - 1) (· ||| ((1 : UInt8) <<< (w.free - 1).toUInt8))
          else w.bytes,
        free := w.free - 1 } := by
  simp [writeBit, h]

theorem size_writeBit (b : Bool) :
    (w.writeBit b).bytes.size = if w.free = 0 then w.bytes.size + 1 else w.bytes.size := by
  by_cases h : w.free = 0
  · rw [writeBit_of_free_eq_zero h]
    cases b <;> simp [h]
  · rw [writeBit_of_free_pos h]
    cases b <;> simp [h]

theorem free_writeBit (b : Bool) :
    (w.writeBit b).free = if w.free = 0 then 7 else w.free - 1 := by
  by_cases h : w.free = 0
  · simp [writeBit_of_free_eq_zero h, h]
  · simp [writeBit_of_free_pos h, h]

theorem bitLength_writeBit (hw : w.Valid) (b : Bool) :
    (w.writeBit b).bitLength = w.bitLength + 1 := by
  have := hw.free_le
  unfold bitLength
  rw [size_writeBit, free_writeBit]
  split <;> omega

/-- Writing a bit sets the stream's bit at the end of what was written, and no other. -/
theorem bitAt_writeBit (hw : w.Valid) (b : Bool) (i : Nat) :
    BitReader.bitAt (w.writeBit b).bytes i =
      (BitReader.bitAt w.bytes i || (b && i == w.bitLength)) := by
  have := hw.free_le
  have := hw.free_lt
  by_cases h : w.free = 0
  · rw [writeBit_of_free_eq_zero h]
    cases b
    · simp [BitReader.bitAt_push_zero]
    · simp only [ite_true]
      rw [BitReader.bitAt_modify_or _ (by simp) (by decide)
        (BitReader.toNat_one_shiftLeft (by decide)), BitReader.bitAt_push_zero]
      simp [bitLength, h]
  · rw [writeBit_of_free_pos h]
    cases b
    · simp
    · simp only [ite_true]
      rw [BitReader.bitAt_modify_or _ (by omega) (by omega)
        (BitReader.toNat_one_shiftLeft (by omega))]
      have hpos : (w.bytes.size - 1) * 8 + (7 - (w.free - 1)) = w.bitLength := by
        unfold bitLength
        omega
      simp [hpos]

theorem Valid.writeBit (hw : w.Valid) (b : Bool) : (w.writeBit b).Valid where
  free_lt := by
    rw [free_writeBit]
    have := hw.free_lt
    split <;> omega
  free_le := by
    rw [free_writeBit, size_writeBit]
    have := hw.free_le
    split <;> omega
  padding i hi := by
    rw [bitLength_writeBit hw] at hi
    rw [bitAt_writeBit hw, hw.padding i (by omega)]
    cases b
    · simp
    · simp only [Bool.false_or, Bool.true_and, beq_eq_false_iff_ne]
      omega

theorem bits_writeBit (hw : w.Valid) (b : Bool) : (w.writeBit b).bits = w.bits ++ [b] := by
  unfold bits
  rw [bitLength_writeBit hw, List.range_succ, List.map_append, List.map_singleton]
  congr 1
  · apply List.map_congr_left
    intro i hi
    rw [List.mem_range] at hi
    simp [bitAt_writeBit hw, Nat.ne_of_lt hi]
  · simp [bitAt_writeBit hw, hw.padding]

/-- `w'` is a valid writer whose bits begin with those of `w`: what a sequence of writes
leaves. -/
structure Grows (w w' : BitWriter) : Prop where
  valid : w'.Valid
  keeps : w.bits <+: w'.bits

theorem Grows.refl (hw : w.Valid) : w.Grows w :=
  ⟨hw, List.prefix_refl _⟩

theorem Grows.trans {w₁ w₂ w₃ : BitWriter} (h₁ : Grows w₁ w₂) (h₂ : Grows w₂ w₃) :
    Grows w₁ w₃ :=
  ⟨h₂.valid, h₁.keeps.trans h₂.keeps⟩

theorem Grows.bitLength_le {w₁ w₂ : BitWriter} (h : Grows w₁ w₂) :
    w₁.bitLength ≤ w₂.bitLength := by
  simpa using h.keeps.length_le

theorem grows_writeBit (hw : w.Valid) (b : Bool) : Grows w (w.writeBit b) :=
  ⟨hw.writeBit b, by rw [bits_writeBit hw]; exact List.prefix_append _ _⟩

/-- What grows from a writer after one more bit is longer than the writer. -/
theorem lt_bitLength_of_grows_writeBit {w' : BitWriter} (hw : w.Valid) {b : Bool}
    (h : (w.writeBit b).Grows w') : w.bitLength < w'.bitLength := by
  have := h.bitLength_le
  rw [bitLength_writeBit hw] at this
  omega

/-- Bit `i` of `bitsOf v n` is bit `n - 1 - i` of `v`. -/
theorem getElem_bitsOf {v : UInt64} {n i : Nat} (hn : n ≤ 64) (hi : i < (bitsOf v n).length) :
    (bitsOf v n)[i] = v.toNat.testBit (n - 1 - i) := by
  simp only [length_bitsOf] at hi
  simp [bitsOf, BitReader.testBit_word v (show n - 1 - i < 64 by omega)]

/-! ### Whole bytes -/

theorem size_writeByte (b : UInt8) : (w.writeByte b).bytes.size = w.bytes.size + 1 := by
  unfold writeByte
  split <;> simp

theorem free_writeByte (b : UInt8) : (w.writeByte b).free = w.free := by
  unfold writeByte
  split <;> rfl

theorem bitLength_writeByte (hw : w.Valid) (b : UInt8) : (w.writeByte b).bitLength = w.bitLength + 8 := by
  have := hw.free_le
  unfold bitLength
  rw [size_writeByte, free_writeByte]
  omega

/-- Writing a byte sets the eight bits after what was written to the byte's bits, highest
first, and no other. -/
theorem bitAt_writeByte (hw : w.Valid) (b : UInt8) (i : Nat) :
    BitReader.bitAt (w.writeByte b).bytes i =
      (BitReader.bitAt w.bytes i ||
        (decide (w.bitLength ≤ i ∧ i < w.bitLength + 8) && b.toNat.testBit (7 - (i - w.bitLength)))) := by
  have hle := hw.free_le
  have hlt := hw.free_lt
  unfold writeByte
  by_cases h : w.free = 0
  · -- the byte goes whole into a new byte
    have hlen : w.bitLength = w.bytes.size * 8 := by unfold bitLength; omega
    rw [if_pos h, BitReader.bitAt_push, hlen]
    by_cases hi : i / 8 < w.bytes.size
    · rw [if_pos hi]
      simp [show ¬ (w.bytes.size * 8 ≤ i ∧ i < w.bytes.size * 8 + 8) by omega]
    · rw [if_neg hi, BitReader.bitAt_of_size_le (by omega), Bool.false_or]
      by_cases hs : i / 8 = w.bytes.size
      · have hmod : 7 - i % 8 = 7 - (i - w.bytes.size * 8) := by omega
        simp [hs, hmod, show w.bytes.size * 8 ≤ i ∧ i < w.bytes.size * 8 + 8 by omega]
      · simp [hs, show ¬ (w.bytes.size * 8 ≤ i ∧ i < w.bytes.size * 8 + 8) by omega]
  · -- the byte's high bits fill the last byte, its low bits open a new one
    have hlen : w.bitLength = w.bytes.size * 8 - w.free := rfl
    rw [if_neg h, BitReader.bitAt_push, Array.size_modify, hlen]
    by_cases hi : i / 8 < w.bytes.size
    · rw [if_pos hi, BitReader.bitAt_modify_or_mask _ (by omega),
        BitReader.testBit_shiftRight_byte _ (by omega)]
      congr 1
      by_cases hlast : i / 8 = w.bytes.size - 1
      · by_cases hin : w.bytes.size * 8 - w.free ≤ i
        · have hidx : 8 - w.free + (7 - i % 8) = 7 - (i - (w.bytes.size * 8 - w.free)) := by omega
          simp [hlast, hin, hidx, show i < w.bytes.size * 8 - w.free + 8 by omega]
        · -- a bit of the last byte before the free ones: the shifted byte has nothing there
          rw [BitReader.testBit_byte_eq_false _ (by omega)]
          simp [hin]
      · simp [hlast, show ¬ (w.bytes.size * 8 - w.free ≤ i) by omega]
    · rw [if_neg hi, BitReader.bitAt_of_size_le (by omega), Bool.false_or]
      by_cases hs : i / 8 = w.bytes.size
      · rw [BitReader.testBit_shiftLeft_byte _ (by omega) (by omega)]
        have hidx : 7 - i % 8 - w.free = 7 - (i - (w.bytes.size * 8 - w.free)) := by omega
        by_cases hfit : w.free ≤ 7 - i % 8
        · simp [hs, hfit, hidx, show w.bytes.size * 8 - w.free ≤ i ∧ i < w.bytes.size * 8 - w.free + 8 by omega]
        · simp [hs, hfit]
          omega
      · simp [hs]
        omega

theorem Valid.writeByte (hw : w.Valid) (b : UInt8) : (w.writeByte b).Valid where
  free_lt := by
    rw [free_writeByte]
    exact hw.free_lt
  free_le := by
    rw [free_writeByte, size_writeByte]
    have := hw.free_le
    omega
  padding i hi := by
    rw [bitLength_writeByte hw] at hi
    rw [bitAt_writeByte hw, hw.padding i (by omega)]
    simp
    omega

theorem bits_writeByte (hw : w.Valid) (b : UInt8) :
    (w.writeByte b).bits = w.bits ++ bitsOf b.toUInt64 8 := by
  apply List.ext_getElem (by simp [bitLength_writeByte hw])
  intro i h₁ h₂
  simp only [length_bits, bitLength_writeByte hw] at h₁
  simp only [bits, List.getElem_map, List.getElem_range]
  rw [bitAt_writeByte hw]
  by_cases hi : i < w.bitLength
  · rw [List.getElem_append_left (by simpa using hi)]
    simp [show ¬ w.bitLength ≤ i by omega]
  · rw [List.getElem_append_right (by simpa using hi), getElem_bitsOf (by decide),
      hw.padding i (by omega)]
    simp [UInt8.toNat_toUInt64, show w.bitLength ≤ i by omega, show i < w.bitLength + 8 by omega]

theorem grows_writeByte (hw : w.Valid) (b : UInt8) : Grows w (w.writeByte b) :=
  ⟨hw.writeByte b, by rw [bits_writeByte hw]; exact List.prefix_append _ _⟩

/-! ### Words -/

/-- The top `k` bits of a word, highest first. -/
def topBits (v : UInt64) (k : Nat) : List Bool := (List.range k).map fun i => v.toNat.testBit (63 - i)

/-- The top bit of a word, as the bit loop tests it. -/
theorem msb_eq_testBit (v : UInt64) : (v >>> 63 == 1) = v.toNat.testBit 63 := by
  have hv := v.toNat_lt
  rw [Bool.eq_iff_iff, beq_iff_eq, ← UInt64.toNat_inj]
  simp [Nat.testBit_eq_decide_div_mod_eq, Nat.shiftRight_eq_div_pow]
  omega

/-- The top `k + 1` bits are the top bit and then the top `k` bits of the word shifted left by
one. -/
theorem topBits_succ (v : UInt64) {k : Nat} (hk : k + 1 ≤ 64) :
    topBits v (k + 1) = (v >>> 63 == 1) :: topBits (v <<< 1) k := by
  rw [topBits, List.range_succ_eq_map, List.map_cons, msb_eq_testBit, topBits, List.map_map]
  congr 1
  refine List.map_congr_left fun i hi => ?_
  rw [List.mem_range] at hi
  rw [Function.comp_apply, BitReader.testBit_shiftLeft_word _ _ (by decide) (by omega)]
  simp [show 1 ≤ 63 - i by omega, show 63 - (i + 1) = 63 - i - 1 by omega]

/-- The top `8 + k` bits are the bits of the top byte and then the top `k` bits of the word
shifted left by eight. -/
theorem topBits_eight_add (v : UInt64) {k : Nat} (hk : 8 + k ≤ 64) :
    topBits v (8 + k) = bitsOf ((v >>> 56).toUInt8).toUInt64 8 ++ topBits (v <<< 8) k := by
  rw [topBits, List.range_add, List.map_append]
  congr 1
  · apply List.ext_getElem (by simp)
    intro i h₁ h₂
    simp only [List.length_map, List.length_range] at h₁
    rw [getElem_bitsOf (by decide)]
    simp only [List.getElem_map, List.getElem_range, UInt8.toNat_toUInt64, UInt64.toNat_toUInt8,
      UInt64.toNat_shiftRight, Nat.testBit_mod_two_pow, Nat.testBit_shiftRight]
    simp only [show 8 - 1 - i < 8 by omega, decide_true, Bool.true_and,
      show (56 : UInt64).toNat = 56 from rfl]
    congr 1
    omega
  · rw [topBits, List.map_map]
    refine List.map_congr_left fun i hi => ?_
    rw [List.mem_range] at hi
    rw [Function.comp_apply, BitReader.testBit_shiftLeft_word _ _ (by decide) (by omega)]
    simp [show 8 ≤ 63 - i by omega, show 63 - (8 + i) = 63 - i - 8 by omega]

/-- The bit loop appends `k` bits, the top `k` of the word when `k ≤ 64`. -/
theorem writeSingleBits_spec (hw : w.Valid) (v : UInt64) (k : Nat) :
    w.Grows (w.writeSingleBits v k) ∧ (w.writeSingleBits v k).bitLength = w.bitLength + k ∧
      (k ≤ 64 → (w.writeSingleBits v k).bits = w.bits ++ topBits v k) := by
  induction k generalizing w v with
  | zero => exact ⟨Grows.refl hw, rfl, fun _ => by simp [writeSingleBits, topBits]⟩
  | succ k ih =>
    obtain ⟨hg, hl, hb⟩ := ih (hw.writeBit (v >>> 63 == 1)) (v <<< 1)
    refine ⟨(grows_writeBit hw _).trans hg, ?_, fun hk => ?_⟩
    · rw [writeSingleBits, hl, bitLength_writeBit hw]
      omega
    · rw [writeSingleBits, hb (by omega), bits_writeBit hw, topBits_succ v hk]
      simp

/-- The byte loop and then the bit loop append `n` bits, the top `n` of the word when
`n ≤ 64`. -/
theorem writeWholeBytes_spec (hw : w.Valid) (v : UInt64) (n : Nat) :
    let p := w.writeWholeBytes v n
    w.Grows (p.1.writeSingleBits p.2.1 p.2.2) ∧
      (p.1.writeSingleBits p.2.1 p.2.2).bitLength = w.bitLength + n ∧
      (n ≤ 64 → (p.1.writeSingleBits p.2.1 p.2.2).bits = w.bits ++ topBits v n) := by
  fun_induction w.writeWholeBytes v n with
  | case1 w v k ih =>
    obtain ⟨hg, hl, hb⟩ := ih (hw.writeByte _)
    refine ⟨(grows_writeByte hw _).trans hg, ?_, fun hk => ?_⟩
    · rw [hl, bitLength_writeByte hw]
      omega
    · show _ = w.bits ++ topBits v (k + 8)
      rw [hb (by omega), bits_writeByte hw, Nat.add_comm k 8, topBits_eight_add v (by omega)]
      simp
  | case2 w v k _ => exact writeSingleBits_spec hw v k

/-- The low `n` bits of a word, moved to its top, are its top `n` bits. -/
theorem topBits_shiftLeft (v : UInt64) {n : Nat} (hn : n ≤ 64) :
    topBits (v <<< (64 - n).toUInt64) n = bitsOf v n := by
  apply List.ext_getElem (by simp [topBits])
  intro i h₁ h₂
  simp only [topBits, List.length_map, List.length_range] at h₁
  have hs : (64 - n).toUInt64.toNat = 64 - n := by simp; omega
  rw [getElem_bitsOf hn]
  simp only [topBits, List.getElem_map, List.getElem_range]
  rw [BitReader.testBit_shiftLeft_word _ _ (by omega) (by omega), hs]
  simp [show 64 - n ≤ 63 - i by omega, show 63 - i - (64 - n) = n - 1 - i by omega]

/-- Writing `n` bits of a word appends `n` bits, the low `n` of the word, highest first, when
`n ≤ 64`. -/
theorem writeBits_spec (hw : w.Valid) (v : UInt64) (n : Nat) :
    w.Grows (w.writeBits v n) ∧ (w.writeBits v n).bitLength = w.bitLength + n ∧
      (n ≤ 64 → (w.writeBits v n).bits = w.bits ++ bitsOf v n) := by
  unfold writeBits
  split
  · subst n
    exact ⟨Grows.refl hw, rfl, fun _ => by simp [bitsOf]⟩
  · obtain ⟨hg, hl, hb⟩ := writeWholeBytes_spec hw (v <<< (64 - n).toUInt64) n
    exact ⟨hg, hl, fun hn => by rw [hb hn, topBits_shiftLeft v hn]⟩

theorem Valid.writeBits (hw : w.Valid) (v : UInt64) (n : Nat) : (w.writeBits v n).Valid :=
  (writeBits_spec hw v n).1.valid

theorem grows_writeBits (hw : w.Valid) (v : UInt64) (n : Nat) : Grows w (w.writeBits v n) :=
  (writeBits_spec hw v n).1

theorem bitLength_writeBits (hw : w.Valid) (v : UInt64) (n : Nat) :
    (w.writeBits v n).bitLength = w.bitLength + n :=
  (writeBits_spec hw v n).2.1

theorem bits_writeBits (hw : w.Valid) (v : UInt64) {n : Nat} (hn : n ≤ 64) :
    (w.writeBits v n).bits = w.bits ++ bitsOf v n :=
  (writeBits_spec hw v n).2.2 hn

end BitWriter

namespace BitReader

/-- `data` holds the bits `l` from bit `pos` on. -/
def Holds (data : Array UInt8) (pos : Nat) (l : List Bool) : Prop :=
  pos + l.length ≤ data.size * 8 ∧ ∀ i (h : i < l.length), bitAt data (pos + i) = l[i]

variable {data : Array UInt8} {pos : Nat}

theorem holds_append {l₁ l₂ : List Bool} :
    Holds data pos (l₁ ++ l₂) ↔ Holds data pos l₁ ∧ Holds data (pos + l₁.length) l₂ := by
  constructor
  · rintro ⟨hlen, hbits⟩
    simp only [List.length_append] at hlen
    refine ⟨⟨by omega, fun i hi => ?_⟩, ⟨by omega, fun i hi => ?_⟩⟩
    · rw [hbits i (by simp; omega), List.getElem_append_left hi]
    · rw [Nat.add_assoc, hbits (l₁.length + i) (by simp; omega),
        List.getElem_append_right (by omega)]
      simp
  · rintro ⟨⟨_, h₁⟩, ⟨hlen, h₂⟩⟩
    refine ⟨by simp; omega, fun i hi => ?_⟩
    by_cases hi₁ : i < l₁.length
    · rw [h₁ i hi₁, List.getElem_append_left hi₁]
    · have := h₂ (i - l₁.length) (by simp at hi; omega)
      rw [show pos + l₁.length + (i - l₁.length) = pos + i by omega] at this
      rw [this, List.getElem_append_right (by omega)]

/-- A writer's bytes hold its bits from the start. -/
theorem holds_bits (w : BitWriter) : Holds w.bytes 0 w.bits :=
  ⟨by simp [BitWriter.bitLength], fun i hi => by simp [BitWriter.bits]⟩

/-- What a stream holds from the start, it holds after any prefix of it. -/
theorem Holds.drop {l₁ l₂ : List Bool} (h : Holds data 0 (l₁ ++ l₂)) :
    Holds data l₁.length l₂ := by
  simpa using (holds_append.1 h).2

theorem Holds.append_left {l₁ l₂ : List Bool} (h : Holds data pos (l₁ ++ l₂)) : Holds data pos l₁ :=
  (holds_append.1 h).1

theorem Holds.mono {l₁ l₂ : List Bool} (h : Holds data pos l₂) (hp : l₁ <+: l₂) :
    Holds data pos l₁ := by
  obtain ⟨t, rfl⟩ := hp
  exact h.append_left

/-- A stream that holds the bits of a writer holds those of every earlier state of it. -/
theorem Holds.of_grows {w w' : BitWriter} (h : Holds data 0 w'.bits) (hg : w.Grows w') :
    Holds data 0 w.bits :=
  h.mono hg.keeps

theorem Holds.tail {b : Bool} {l : List Bool} (h : Holds data pos (b :: l)) :
    Holds data (pos + 1) l := by
  have h' : Holds data pos ([b] ++ l) := h
  simpa using (holds_append.1 h').2

theorem readBit_of_holds {r : BitReader} {b : Bool} {l : List Bool}
    (h : Holds r.data r.pos (b :: l)) :
    r.readBit = .ok (b, { r with pos := r.pos + 1 }) := by
  obtain ⟨hlen, hbits⟩ := h
  have := hbits 0 (by simp)
  simp only [List.length_cons, Nat.add_zero, List.getElem_cons_zero] at hlen this
  simp [readBit, show r.pos < r.data.size * 8 by omega, this]

/-! ### Reading a number -/

/-- The number a list of bits spells, most significant first. -/
def msbValue (bs : List Bool) : Nat := bs.foldl (fun acc b => 2 * acc + b.toNat) 0

theorem msbValue_append_singleton (bs : List Bool) (b : Bool) :
    msbValue (bs ++ [b]) = 2 * msbValue bs + b.toNat := by
  simp [msbValue]

/-- The bits of a number, highest first, spell it cut to their count. -/
theorem msbValue_testBits (x k : Nat) :
    msbValue ((List.range k).map fun i => x.testBit (k - 1 - i)) = x % 2 ^ k := by
  induction k generalizing x with
  | zero => simp [msbValue, Nat.mod_one]
  | succ k ih =>
    rw [List.range_succ, List.map_append, List.map_singleton, msbValue_append_singleton]
    -- the first `k` bits are those of `x / 2`
    have hfirst : ((List.range k).map fun i => x.testBit (k + 1 - 1 - i)) =
        (List.range k).map fun i => (x / 2).testBit (k - 1 - i) := by
      refine List.map_congr_left fun i hi => ?_
      rw [List.mem_range] at hi
      rw [Nat.testBit_div_two, show k - 1 - i + 1 = k + 1 - 1 - i by omega]
    rw [hfirst, ih, Nat.pow_succ', Nat.mod_mul, show k + 1 - 1 - k = 0 by omega, Nat.toNat_testBit]
    simp only [Nat.pow_zero, Nat.div_one]
    omega

/-- The next `k` bits from position `pos` shifted one at a time into `value`, as the bit loop
of `readBits` does. -/
def shiftIn (data : Array UInt8) (pos : Nat) (value : UInt64) (k : Nat) : UInt64 :=
  (List.range k).foldl (fun v i => (v <<< 1) ||| (if bitAt data (pos + i) then 1 else 0)) value

theorem shiftIn_add (data : Array UInt8) (pos : Nat) (value : UInt64) (a b : Nat) :
    shiftIn data pos value (a + b) = shiftIn data (pos + a) (shiftIn data pos value a) b := by
  simp [shiftIn, List.range_add, List.foldl_append, List.foldl_map, Nat.add_assoc]

/-- One bit shifted into a word: twice the word and the bit, cut to 64 bits. -/
theorem toNat_shiftIn_bit (v : UInt64) (b : Bool) :
    ((v <<< 1) ||| (if b then 1 else 0)).toNat = (2 * v.toNat + b.toNat) % 2 ^ 64 := by
  have hshift : (v <<< 1).toNat = 2 * (v.toNat % 2 ^ 63) := by
    rw [UInt64.toNat_shiftLeft, show ((1 : UInt64).toNat % 64) = 1 from rfl, Nat.shiftLeft_eq,
      Nat.pow_one, show (2 : Nat) ^ 64 = 2 * 2 ^ 63 from rfl, Nat.mul_comm v.toNat 2,
      Nat.mul_mod_mul_left]
  have hor : 2 * (v.toNat % 2 ^ 63) ||| (if b then (1 : UInt64) else 0).toNat =
      2 * (v.toNat % 2 ^ 63) + b.toNat := by
    cases b
    · simp
    · have := Nat.two_pow_add_eq_or_of_lt (i := 1) (b := 1) (by decide) (v.toNat % 2 ^ 63)
      simp only [Nat.pow_one] at this
      exact this.symm
  rw [UInt64.toNat_or, hshift, hor]
  have := v.toNat_lt
  have : b.toNat < 2 := Bool.toNat_lt b
  simp only [show (2 : Nat) ^ 63 = 9223372036854775808 from rfl,
    show (2 : Nat) ^ 64 = 18446744073709551616 from rfl] at *
  omega

/-- Shifting `k` bits into a word gives the word times `2 ^ k` and the number the bits spell,
cut to 64 bits. -/
theorem toNat_shiftIn (data : Array UInt8) (pos : Nat) (value : UInt64) (k : Nat) :
    (shiftIn data pos value k).toNat =
      (value.toNat * 2 ^ k + msbValue ((List.range k).map fun i => bitAt data (pos + i))) % 2 ^ 64 := by
  induction k with
  | zero => simp [shiftIn, msbValue, Nat.mod_eq_of_lt value.toNat_lt]
  | succ k ih =>
    have hstep : shiftIn data pos value (k + 1) =
        (shiftIn data pos value k <<< 1) ||| (if bitAt data (pos + k) then 1 else 0) := by
      simp [shiftIn, List.range_succ, List.foldl_append]
    rw [hstep, toNat_shiftIn_bit, ih, List.range_succ, List.map_append, List.map_singleton,
      msbValue_append_singleton,
      show value.toNat * 2 ^ (k + 1) = 2 * (value.toNat * 2 ^ k) by rw [Nat.pow_succ', Nat.mul_left_comm]]
    generalize value.toNat * 2 ^ k = a
    generalize msbValue ((List.range k).map fun i => bitAt data (pos + i)) = m
    have : (bitAt data (pos + k)).toNat < 2 := Bool.toNat_lt _
    simp only [show (2 : Nat) ^ 64 = 18446744073709551616 from rfl]
    omega

/-- On a byte boundary, eight bits shifted in one at a time are the byte shifted in whole: the
byte-aligned path of `readBits` reads what the bit loop would. -/
theorem shiftIn_byte {data : Array UInt8} {pos : Nat} (hpos : pos % 8 = 0) (hin : pos / 8 < data.size)
    (value : UInt64) :
    shiftIn data pos value 8 = (value <<< 8) ||| (data.getD (pos / 8) 0).toUInt64 := by
  apply UInt64.toNat_inj.1
  -- the eight bits spell the byte
  have hbits : ((List.range 8).map fun i => bitAt data (pos + i)) =
      (List.range 8).map fun i => data[pos / 8].toNat.testBit (8 - 1 - i) := by
    refine List.map_congr_left fun i hi => ?_
    rw [List.mem_range] at hi
    rw [bitAt_eq, dif_pos (by omega)]
    simp only [show (pos + i) / 8 = pos / 8 by omega, show (pos + i) % 8 = i by omega]
  have hbyte := data[pos / 8].toNat_lt
  rw [toNat_shiftIn, hbits, msbValue_testBits, Nat.mod_eq_of_lt hbyte, UInt64.toNat_or,
    UInt64.toNat_shiftLeft, Array.getD_eq_getD_getElem?, Array.getElem?_eq_getElem hin,
    Option.getD_some, UInt8.toNat_toUInt64, show ((8 : UInt64).toNat % 64) = 8 from rfl,
    Nat.shiftLeft_eq, show (2 : Nat) ^ 64 = 2 ^ 8 * 2 ^ 56 from rfl, Nat.mul_comm value.toNat,
    Nat.mul_mod_mul_left, ← Nat.two_pow_add_eq_or_of_lt hbyte]
  have := value.toNat_lt
  simp only [show (2 : Nat) ^ 8 = 256 from rfl, show (2 : Nat) ^ 56 = 72057594037927936 from rfl,
    show (2 : Nat) ^ 64 = 18446744073709551616 from rfl] at *
  omega

/-- The bit loop reads the next `k` bits one at a time, while there are that many. -/
theorem readSingleBits_eq (r : BitReader) (value : UInt64) (k : Nat) (h : r.pos + k ≤ r.data.size * 8) :
    r.readSingleBits value k = .ok (shiftIn r.data r.pos value k, { r with pos := r.pos + k }) := by
  induction k generalizing r value with
  | zero => simp [readSingleBits, shiftIn]
  | succ k ih =>
    have hbit : r.readBit = .ok (bitAt r.data r.pos, { r with pos := r.pos + 1 }) := by
      simp [readBit, show r.pos < r.data.size * 8 by omega]
    rw [readSingleBits, hbit]
    show readSingleBits { r with pos := r.pos + 1 } _ k = _
    rw [ih _ _ (by simp only; omega), Nat.add_comm k 1, shiftIn_add]
    simp [shiftIn, Nat.add_assoc]

/-- The byte-aligned loop moves past some `c` of the `n` bits and shifts them into the value as
the bit loop would, leaving the other `n - c` to it. -/
theorem readWholeBytes_spec (r : BitReader) (value : UInt64) (n : Nat)
    (h : r.pos + n ≤ r.data.size * 8) :
    let p := r.readWholeBytes value n
    p.2.1.data = r.data ∧ ∃ c, c + p.2.2 = n ∧ p.2.1.pos = r.pos + c ∧ p.1 = shiftIn r.data r.pos value c := by
  fun_induction r.readWholeBytes value n with
  | case1 r v k hpos ih =>
    obtain ⟨hd, c, hc, hp, hv⟩ := ih (by simp only; omega)
    refine ⟨hd, 8 + c, by omega, by rw [hp]; simp only; omega, ?_⟩
    rw [hv, shiftIn_add, shiftIn_byte hpos (by omega)]
  | case2 r v k hpos => exact ⟨rfl, 0, by simp, by simp, by simp [shiftIn]⟩
  | case3 r v k _ => exact ⟨rfl, 0, by simp, by simp, by simp [shiftIn]⟩

/-- Reading `n` bits, when that is allowed, gives the number the next `n` bits spell as the bit
loop alone would read them, whatever part of them the byte-aligned loop took, and moves past
them. -/
theorem readBits_eq (r : BitReader) (n : Nat) :
    r.readBits n =
      if n > 64 then .error .tooWide
      else if r.remaining < n then .error .exhausted
      else .ok (shiftIn r.data r.pos 0 n, { r with pos := r.pos + n }) := by
  unfold readBits
  split
  · rfl
  · split
    · rfl
    · rename_i hrem
      rcases Nat.eq_zero_or_pos n with rfl | hn
      · simp [readWholeBytes, readSingleBits, shiftIn]
      · have h : r.pos + n ≤ r.data.size * 8 := by simp only [remaining] at hrem; omega
        obtain ⟨hd, c, hc, hp, hv⟩ := readWholeBytes_spec r 0 n h
        rcases hwb : r.readWholeBytes 0 n with ⟨v', ⟨data', pos'⟩, m⟩
        rw [hwb] at hd hc hp hv
        simp only at hd hc hp hv ⊢
        subst hd hp hv
        rw [readSingleBits_eq _ _ m (by simp only; omega), ← shiftIn_add, hc]
        simp [Nat.add_assoc, hc]

/-- Reading `k` bits of a stream that holds the low `n` bits of `v` gives the top `k` of
them. -/
theorem fold_readBits {v : UInt64} {n : Nat} (hn : n ≤ 64) (h : Holds data pos (BitWriter.bitsOf v n))
    (k : Nat) (hk : k ≤ n) :
    ((List.range k).foldl
      (fun (acc : UInt64) i => (acc <<< 1) ||| (if bitAt data (pos + i) then 1 else 0)) (0 : UInt64)).toNat =
      v.toNat % 2 ^ n / 2 ^ (n - k) := by
  induction k with
  | zero =>
    simp only [List.range_zero, List.foldl_nil, UInt64.toNat_zero, Nat.sub_zero]
    exact (Nat.div_eq_of_lt (Nat.mod_lt _ (Nat.two_pow_pos n))).symm
  | succ k ih =>
    rw [List.range_succ, List.foldl_append, List.foldl_cons, List.foldl_nil]
    set acc := (List.range k).foldl
      (fun (acc : UInt64) i => (acc <<< 1) ||| (if bitAt data (pos + i) then 1 else 0)) (0 : UInt64)
    have hacc := ih (by omega)
    -- the bit read is bit `n - 1 - k` of `v`
    have hbit : bitAt data (pos + k) = v.toNat.testBit (n - 1 - k) := by
      rw [h.2 k (by simp; omega), BitWriter.getElem_bitsOf hn]
    set m := n - 1 - k
    have hm : n - k = m + 1 := by omega
    have hmod : v.toNat.testBit m = (v.toNat % 2 ^ n).testBit m := by
      rw [Nat.testBit_mod_two_pow]
      simp [show m < n by omega]
    have hlt : acc.toNat < 2 ^ 63 := by
      rw [hacc, hm, Nat.div_lt_iff_lt_mul (Nat.two_pow_pos _), ← Nat.pow_add]
      exact Nat.lt_of_lt_of_le (Nat.mod_lt _ (Nat.two_pow_pos n))
        (Nat.pow_le_pow_right (by omega) (by omega))
    have hshift : (acc <<< 1).toNat = 2 * acc.toNat := by
      simp only [UInt64.toNat_shiftLeft]
      rw [show ((1 : UInt64).toNat % 64) = 1 from rfl, Nat.shiftLeft_eq]
      omega
    have hor : ((acc <<< 1) ||| (if v.toNat.testBit m then 1 else 0)).toNat =
        2 * acc.toNat + (v.toNat.testBit m).toNat := by
      rw [UInt64.toNat_or, hshift]
      cases v.toNat.testBit m
      · simp
      · have := Nat.two_pow_add_eq_or_of_lt (i := 1) (b := 1) (by decide) acc.toNat
        simp only [Nat.pow_one] at this
        simp [← this]
    have hsplit : v.toNat % 2 ^ n / 2 ^ m =
        2 * (v.toNat % 2 ^ n / 2 ^ (m + 1)) + v.toNat % 2 ^ n / 2 ^ m % 2 := by
      rw [Nat.pow_succ, ← Nat.div_div_eq_div_mul]
      omega
    rw [hbit, hor, hacc, hm, hmod, Nat.toNat_testBit, show n - (k + 1) = m by omega]
    omega

/-- Reading `n ≤ 64` bits where the low `n` bits of `v` are held gives them as a number. -/
theorem readBits_of_holds {r : BitReader} {v : UInt64} {n : Nat} (hn : n ≤ 64)
    (h : Holds r.data r.pos (BitWriter.bitsOf v n)) :
    r.readBits n = .ok (UInt64.ofNat (v.toNat % 2 ^ n), { r with pos := r.pos + n }) := by
  have hlen := h.1
  simp only [BitWriter.length_bitsOf] at hlen
  have hval := fold_readBits hn h n (Nat.le_refl n)
  simp only [Nat.sub_self, Nat.pow_zero, Nat.div_one] at hval
  rw [readBits_eq]
  simp only [remaining, shiftIn, show ¬n > 64 by omega, show ¬r.data.size * 8 - r.pos < n by omega,
    if_false]
  rw [← hval, UInt64.ofNat_toNat]

end BitReader

namespace BitWriter

variable {w : BitWriter} {data : Array UInt8}

theorem holds_bitsOf_writeBits (hw : w.Valid) {v : UInt64} {n : Nat} (hn : n ≤ 64)
    (h : BitReader.Holds data 0 (w.writeBits v n).bits) : BitReader.Holds data w.bitLength (bitsOf v n) := by
  rw [bits_writeBits hw v hn] at h
  simpa using h.drop

theorem holds_of_writeBits (hw : w.Valid) {v : UInt64} {n : Nat}
    (h : BitReader.Holds data 0 (w.writeBits v n).bits) : BitReader.Holds data 0 w.bits :=
  h.of_grows (grows_writeBits hw v n)

/-- A bit written where the stream holds what was written is read back. -/
theorem readBit_writeBit (hw : w.Valid) {b : Bool} (h : BitReader.Holds data 0 (w.writeBit b).bits) :
    BitReader.readBit ⟨data, w.bitLength⟩ = .ok (b, ⟨data, (w.writeBit b).bitLength⟩) := by
  rw [bits_writeBit hw] at h
  have := BitReader.readBit_of_holds (r := ⟨data, w.bitLength⟩) (l := []) (by simpa using h.drop)
  rw [this, bitLength_writeBit hw]

/-- The low `n ≤ 64` bits of `v`, written where the stream holds what was written, are read
back as a number. -/
theorem readBits_writeBits (hw : w.Valid) {v : UInt64} {n : Nat} (hn : n ≤ 64)
    (h : BitReader.Holds data 0 (w.writeBits v n).bits) :
    BitReader.readBits ⟨data, w.bitLength⟩ n =
      .ok (UInt64.ofNat (v.toNat % 2 ^ n), ⟨data, (w.writeBits v n).bitLength⟩) := by
  rw [bits_writeBits hw v hn] at h
  have := BitReader.readBits_of_holds (r := ⟨data, w.bitLength⟩) hn (by simpa using h.drop)
  rw [this, bitLength_writeBits hw]

/-- A byte written where the stream holds what was written is read back. -/
theorem readBits_writeByte (hw : w.Valid) {b : UInt8}
    (h : BitReader.Holds data 0 (w.writeByte b).bits) :
    BitReader.readBits ⟨data, w.bitLength⟩ 8 = .ok (b.toUInt64, ⟨data, (w.writeByte b).bitLength⟩) := by
  have hb : b.toUInt64.toNat % 2 ^ 8 = b.toUInt64.toNat :=
    Nat.mod_eq_of_lt (by simpa using b.toNat_lt)
  rw [bits_writeByte hw] at h
  have := BitReader.readBits_of_holds (r := ⟨data, w.bitLength⟩) (v := b.toUInt64) (n := 8) (by decide)
    (by simpa using h.drop)
  rw [this, hb, UInt64.ofNat_toNat, bitLength_writeByte hw]

end BitWriter

end FrameCache
