import Mathlib
import FrameCache.Proofs.Bits
import FrameCache.Codec.Gorilla

/-!
# Compressed sample streams read back

Decompressing what the compressor wrote gives back every sample: the same times, also when
they go back, repeat or lie so far apart that their differences wrap around, and the same
64-bit value patterns, NaN payloads and signed zeros included.

The compressor and the decompressor each keep a history: the previous time and difference,
the previous value, and the window of leading and trailing zeros of the last value change.
The proof runs them side by side: after each sample the decompressor is
`GorillaEncoder.decoderAt`, standing where the compressor's bits for the next sample begin and
keeping the same history (`next_decoderAt_push`). Each part of a sample's bits is read back by
its own lemma: the varints (`readVarint_writeVarint`), the change of the time difference
(`readDeltaOfDelta_writeDeltaOfDelta`) and the change of the value (`readValue_writeValue`).
The compressor's bits only grow (`valid_foldl_push`), so what is read from the final bytes is
what was there when each sample was written.
-/

namespace FrameCache
open BitWriter BitReader

@[simp] theorem Except.ok_bind {ε α β : Type} (a : α) (f : α → Except ε β) :
    (Except.ok a >>= f) = f a := rfl

@[simp] theorem GorillaDecoder.lift_ok {α : Type} (a : α) :
    GorillaDecoder.lift (.ok a : Except BitsError α) = .ok a := rfl

namespace Gorilla

theorem grows_writeVarint_go (wf z : Nat) {w : BitWriter} (hw : w.Valid) :
    w.Grows (writeVarint.go w z wf) := by
  induction wf generalizing z w with
  | zero =>
    rw [writeVarint.go]
    exact grows_writeByte hw _
  | succ wf ih =>
    rw [writeVarint.go]
    split
    · exact (grows_writeByte hw _).trans (ih _ (hw.writeByte _))
    · exact grows_writeByte hw _

theorem grows_writeVarint {w : BitWriter} (hw : w.Valid) (v : Int64) :
    w.Grows (writeVarint w v) :=
  grows_writeVarint_go 10 _ hw

/-- Digits below `2 ^ s` and digits shifted past them do not overlap. -/
theorem or_shiftLeft_of_lt {acc d s : Nat} (h : acc < 2 ^ s) : acc ||| d <<< s = acc + d * 2 ^ s := by
  rw [Nat.or_comm, ← Nat.shiftLeft_add_eq_or_of_lt h, Nat.shiftLeft_eq, Nat.add_comm]

/-- The last byte of a varint: its digit below 128 is read, and the number is complete. -/
theorem readVarint_go_lastByte {w : BitWriter} {data : Array UInt8} {z acc s rf : Nat}
    (hw : w.Valid) (hz : z < 128) (hs : s < 64) (hacc : acc < 2 ^ s) (hfit : acc + z * 2 ^ s < 2 ^ 64)
    (hd : Holds data 0 (w.writeByte z.toUInt8).bits) :
    GorillaDecoder.readVarint.go ⟨data, w.bitLength⟩ acc s (rf + 1) =
      .ok (acc + z * 2 ^ s, ⟨data, (w.writeByte z.toUInt8).bitLength⟩) := by
  rw [GorillaDecoder.readVarint.go, readBits_writeByte hw hd]
  have hb : z.toUInt8.toUInt64.toNat = z := by
    simp; omega
  simp only [GorillaDecoder.lift_ok, Except.ok_bind, hb, show ¬ s ≥ 64 by omega, if_false, hz, if_true]
  rw [or_shiftLeft_of_lt hacc, Nat.mod_eq_of_lt hz, Nat.pow_eq, Nat.mod_eq_of_lt hfit]
  rfl

/-- The varint written for `z` is read back as `z`, its digits added to what was read before
at `s` bits and up. -/
theorem readVarint_go_writeVarint_go (wf : Nat) {z : Nat} {w : BitWriter} {data : Array UInt8}
    {acc s rf : Nat} (hw : w.Valid) (hz : z < 128 ^ (wf + 1)) (hrf : wf + 1 ≤ rf) (hs : s < 64)
    (hacc : acc < 2 ^ s) (hfit : acc + z * 2 ^ s < 2 ^ 64)
    (hd : Holds data 0 (writeVarint.go w z wf).bits) :
    GorillaDecoder.readVarint.go ⟨data, w.bitLength⟩ acc s rf =
      .ok (acc + z * 2 ^ s, ⟨data, (writeVarint.go w z wf).bitLength⟩) := by
  obtain ⟨rf, rfl⟩ : ∃ k, rf = k + 1 := ⟨rf - 1, by omega⟩
  induction wf generalizing z w acc s rf with
  | zero =>
    rw [writeVarint.go] at hd ⊢
    exact readVarint_go_lastByte hw (by simpa using hz) hs hacc hfit hd
  | succ wf ih =>
    rw [writeVarint.go] at hd ⊢
    by_cases hbig : z ≥ 128
    · rw [if_pos hbig] at hd ⊢
      have hw' := hw.writeByte (z % 128 + 128).toUInt8
      have hd' := hd.of_grows (grows_writeVarint_go wf (z / 128) hw')
      have hb : (z % 128 + 128).toUInt8.toUInt64.toNat = z % 128 + 128 := by
        simp
        omega
      -- the next digits start seven bits higher
      have hP : 0 < 2 ^ s := Nat.two_pow_pos s
      have hdigit : (z % 128) * 2 ^ s ≤ 127 * 2 ^ s := Nat.mul_le_mul_right _ (by omega)
      have hsplit : (z % 128) * 2 ^ s + (z / 128) * 2 ^ (s + 7) = z * 2 ^ s := by
        conv_rhs => rw [← Nat.mod_add_div z 128]
        rw [Nat.pow_add]
        ring
      have hhigh : 2 ^ (s + 7) ≤ (z / 128) * 2 ^ (s + 7) :=
        Nat.le_mul_of_pos_left _ (by omega)
      have hs' : s + 7 < 64 := by
        have : 2 ^ (s + 7) < 2 ^ 64 := by omega
        exact (Nat.pow_lt_pow_iff_right (by omega)).1 this
      have hacc' : acc + (z % 128) * 2 ^ s < 2 ^ (s + 7) := by
        rw [Nat.pow_add]
        omega
      obtain ⟨rf, rfl⟩ : ∃ k, rf = k + 1 := ⟨rf - 1, by omega⟩
      rw [GorillaDecoder.readVarint.go, readBits_writeByte hw hd']
      simp only [GorillaDecoder.lift_ok, Except.ok_bind, hb, show ¬ s ≥ 64 by omega, if_false,
        show ¬ z % 128 + 128 < 128 by omega]
      rw [show (z % 128 + 128) % 128 = z % 128 by omega, or_shiftLeft_of_lt hacc, Nat.pow_eq,
        Nat.mod_eq_of_lt (show acc + z % 128 * 2 ^ s < 2 ^ 64 by omega)]
      rw [ih hw' (by rw [Nat.pow_succ] at hz ⊢; omega) hs' hacc' (by omega) hd rf (by omega)]
      congr 2
      omega
    · rw [if_neg hbig] at hd ⊢
      exact readVarint_go_lastByte hw (by omega) hs hacc hfit hd



open BitWriter BitReader

theorem toNat_zigzag (v : Int64) :
    (zigzag v).toNat = (if v.toInt ≥ 0 then 2 * v.toInt else -2 * v.toInt - 1).toNat := by
  have h1 := v.le_toInt
  have h2 := v.toInt_lt
  simp only [zigzag]
  rw [Nat.toUInt64, UInt64.toNat_ofNat']
  apply Nat.mod_eq_of_lt
  split <;> omega

theorem unzigzag_zigzag (v : Int64) : unzigzag (zigzag v) = v := by
  have h1 := v.le_toInt
  have h2 := v.toInt_lt
  have hz := toNat_zigzag v
  simp only [unzigzag, hz]
  have key : (let n := (if v.toInt ≥ 0 then 2 * v.toInt else -2 * v.toInt - 1).toNat
      if n % 2 = 0 then (n / 2 : Int) else -((n + 1) / 2 : Int)) = v.toInt := by
    by_cases hv : v.toInt ≥ 0
    · simp only [hv, if_true]
      split <;> omega
    · simp only [hv, if_false]
      split <;> omega
  rw [key, Int64.ofInt_toInt]

/-- A varint is read back as the number written. -/
theorem readVarint_writeVarint {w : BitWriter} {data : Array UInt8} (hw : w.Valid) (v : Int64)
    (h : Holds data 0 (writeVarint w v).bits) :
    GorillaDecoder.readVarint ⟨data, w.bitLength⟩ = .ok (v, ⟨data, (writeVarint w v).bitLength⟩) := by
  have hz := (zigzag v).toNat_lt
  unfold GorillaDecoder.readVarint
  rw [readVarint_go_writeVarint_go 10 hw (by omega) (by decide) (by decide) (by decide)
    (by simpa using hz) h]
  simp [unzigzag_zigzag, writeVarint]

/-- The signed value of a 64-bit pattern: its number, less `2^64` when the top bit is set. -/
theorem toInt_eq_of_toUInt64 (d : Int64) :
    d.toInt = if 2 * d.toUInt64.toNat < 2 ^ 64 then (d.toUInt64.toNat : Int)
      else (d.toUInt64.toNat : Int) - 2 ^ 64 := by
  rw [← Int64.toInt_toBitVec, BitVec.toInt_eq_toNat_cond]
  rfl

/-- Bits below the trailing zeros are clear. -/
theorem testBit_of_lt_trailingZeros (x : UInt64) {j : Nat} (hj : j < trailingZeros x) :
    x.toNat.testBit j = false := by
  unfold trailingZeros at hj
  cases h : (List.range 64).find? (fun i => (x >>> i.toUInt64) &&& 1 == 1) with
  | none =>
    rw [h, Option.getD_none] at hj
    have := List.find?_range_eq_none.1 h j hj
    rwa [BitReader.testBit_word x hj, Bool.not_eq_true'] at this
  | some t =>
    rw [h, Option.getD_some] at hj
    obtain ⟨_, ht, hlt⟩ := List.find?_range_eq_some.1 h
    have := hlt j hj
    rw [List.mem_range] at ht
    rwa [BitReader.testBit_word x (by omega), Bool.not_eq_true'] at this

theorem two_pow_trailingZeros_dvd (x : UInt64) : 2 ^ trailingZeros x ∣ x.toNat := by
  apply Nat.dvd_of_mod_eq_zero
  apply Nat.eq_of_testBit_eq
  intro j
  rw [Nat.testBit_mod_two_pow, Nat.zero_testBit]
  by_cases hj : j < trailingZeros x
  · simp [testBit_of_lt_trailingZeros x hj]
  · simp [hj]

/-- A nonzero word has its top bit below bit 64, with `63 - log2` zeros above it. -/
theorem leadingZeros_of_ne_zero {x : UInt64} (hx : x ≠ 0) :
    x.toNat ≠ 0 ∧ x.toNat.log2 < 64 ∧ leadingZeros x = 63 - x.toNat.log2 := by
  have hn : x.toNat ≠ 0 := by simpa [← UInt64.toNat_inj] using hx
  exact ⟨hn, (Nat.log2_lt hn).2 x.toNat_lt, if_neg hx⟩

theorem lt_two_pow_leadingZeros {x : UInt64} (hx : x ≠ 0) :
    x.toNat < 2 ^ (64 - leadingZeros x) := by
  obtain ⟨-, hlog, hlz⟩ := leadingZeros_of_ne_zero hx
  rw [hlz, show 64 - (63 - x.toNat.log2) = x.toNat.log2 + 1 by omega]
  exact Nat.lt_log2_self

/-- The leading and trailing zeros of a nonzero word leave at least one bit between them. -/
theorem leadingZeros_add_trailingZeros {x : UInt64} (hx : x ≠ 0) :
    leadingZeros x + trailingZeros x ≤ 63 := by
  have hn : x.toNat ≠ 0 := by simpa [← UInt64.toNat_inj] using hx
  have hle : 2 ^ trailingZeros x ≤ x.toNat :=
    Nat.le_of_dvd (Nat.pos_of_ne_zero hn) (two_pow_trailingZeros_dvd x)
  have hlt := Nat.lt_of_le_of_lt hle (lt_two_pow_leadingZeros hx)
  have := (Nat.pow_lt_pow_iff_right (by omega)).1 hlt
  omega

/-- A word that fits the window of `l` leading and `t` trailing zeros is restored from the
bits inside the window. -/
theorem window_restore {x : UInt64} {l t : Nat} (hl : x.toNat < 2 ^ (64 - l))
    (ht : 2 ^ t ∣ x.toNat) (hlt : l + t ≤ 63) :
    UInt64.ofNat ((x >>> t.toUInt64).toNat % 2 ^ (64 - l - t)) <<< t.toUInt64 = x := by
  have ht64 : t.toUInt64.toNat % 64 = t := by simp; omega
  have hq : x.toNat / 2 ^ t < 2 ^ (64 - l - t) := by
    rw [Nat.div_lt_iff_lt_mul (Nat.two_pow_pos t), ← Nat.pow_add,
      show 64 - l - t + t = 64 - l by omega]
    exact hl
  apply UInt64.toNat_inj.1
  rw [UInt64.toNat_shiftLeft, ht64, UInt64.toNat_ofNat', UInt64.toNat_shiftRight, ht64,
    Nat.shiftRight_eq_div_pow, Nat.mod_eq_of_lt hq,
    Nat.mod_eq_of_lt (Nat.lt_of_lt_of_le hq (Nat.pow_le_pow_right (by omega) (by omega))),
    Nat.shiftLeft_eq, Nat.div_mul_cancel ht, Nat.mod_eq_of_lt x.toNat_lt]


end Gorilla

namespace GorillaDecoder

variable {d : GorillaDecoder} {data : Array UInt8} {w : BitWriter} {pos : Nat}

/-- An unchanged value is one clear bit. -/
theorem readValue_same (hw : w.Valid) (hr : d.reader = ⟨data, w.bitLength⟩)
    (h : Holds data 0 (w.writeBit false).bits) :
    d.readValue = .ok { d with reader := ⟨data, (w.writeBit false).bitLength⟩ } := by
  unfold readValue
  rw [hr, readBit_writeBit hw h]
  rfl

/-- A change inside the previous window: set bit, clear bit, and the bits of the window. -/
theorem readValue_reuse (hw : w.Valid) (hr : d.reader = ⟨data, w.bitLength⟩) (y : UInt64)
    (h : Holds data 0
      (((w.writeBit true).writeBit false).writeBits y (64 - d.leading - d.trailing)).bits) :
    d.readValue = .ok { d with
      reader := ⟨data, (((w.writeBit true).writeBit false).writeBits y
        (64 - d.leading - d.trailing)).bitLength⟩,
      value := d.value ^^^ (UInt64.ofNat (y.toNat % 2 ^ (64 - d.leading - d.trailing)) <<<
        d.trailing.toUInt64) } := by
  have hw1 := hw.writeBit true
  have hw2 := hw1.writeBit false
  have h2 := h.of_grows (grows_writeBits hw2 _ _)
  have h1 := h2.of_grows (grows_writeBit hw1 _)
  unfold readValue
  rw [hr, readBit_writeBit hw h1]
  simp only [lift_ok, Except.ok_bind]
  rw [readBit_writeBit hw1 h2]
  simp only [lift_ok, Except.ok_bind, Bool.not_true, Bool.false_eq_true, if_false, pure_bind]
  rw [readBits_writeBits hw2 (by omega) h]
  rfl

/-- A change in a new window: two set bits, the window's leading zeros in five bits, its width
in six bits (64 written as 0), and the bits of the window. -/
theorem readValue_fresh (hw : w.Valid) (hr : d.reader = ⟨data, w.bitLength⟩) {l sig : Nat}
    (hl : l < 32) (hsig : 0 < sig) (hfit : l + sig ≤ 64) (y : UInt64)
    (h : Holds data 0 (((((w.writeBit true).writeBit true).writeBits l.toUInt64 5).writeBits
      (sig % 64).toUInt64 6).writeBits y sig).bits) :
    d.readValue = .ok { d with
      reader := ⟨data, (((((w.writeBit true).writeBit true).writeBits l.toUInt64 5).writeBits
        (sig % 64).toUInt64 6).writeBits y sig).bitLength⟩,
      value := d.value ^^^ (UInt64.ofNat (y.toNat % 2 ^ sig) <<< (64 - l - sig).toUInt64),
      leading := l, trailing := 64 - l - sig } := by
  have hw1 := hw.writeBit true
  have hw2 := hw1.writeBit true
  have hw3 := hw2.writeBits l.toUInt64 5
  have hw4 := hw3.writeBits (sig % 64).toUInt64 6
  have h4 := h.of_grows (grows_writeBits hw4 _ _)
  have h3 := h4.of_grows (grows_writeBits hw3 _ _)
  have h2 := h3.of_grows (grows_writeBits hw2 _ _)
  have h1 := h2.of_grows (grows_writeBit hw1 _)
  have hlead : (UInt64.ofNat (l.toUInt64.toNat % 2 ^ 5)).toNat = l := by
    simp
    omega
  have hwidth : (UInt64.ofNat ((sig % 64).toUInt64.toNat % 2 ^ 6)).toNat = sig % 64 := by
    simp
    omega
  have hsig' : (if sig % 64 = 0 then 64 else sig % 64) = sig := by
    split <;> omega
  unfold readValue
  rw [hr, readBit_writeBit hw h1]
  simp only [lift_ok, Except.ok_bind, Bool.not_true, Bool.false_eq_true, if_false, pure_bind]
  rw [readBit_writeBit hw1 h2]
  simp only [lift_ok, Except.ok_bind, if_true]
  rw [readBits_writeBits hw2 (by omega) h3]
  simp only [lift_ok, Except.ok_bind]
  rw [readBits_writeBits hw3 (by omega) h4]
  simp only [lift_ok, Except.ok_bind, hlead, hwidth, hsig', show ¬ l + sig > 64 by omega, if_false,
    show 64 - l - (64 - l - sig) = sig by omega]
  rw [readBits_writeBits hw4 (by omega) h]
  rfl

/-- The prefix of a change of the time difference: `k < 4` set bits and a clear bit read as
`2^(k+1) - 2`. -/
theorem readPrefix_go_zero (k : Nat) {acc fuel : Nat} (hk : k < fuel)
    (h : Holds data pos (List.replicate k true ++ [false])) :
    readPrefix.go ⟨data, pos⟩ acc fuel = .ok ((acc + 1) * 2 ^ (k + 1) - 2, ⟨data, pos + k + 1⟩) := by
  induction k generalizing pos acc fuel with
  | zero =>
    obtain ⟨fuel, rfl⟩ : ∃ f, fuel = f + 1 := ⟨fuel - 1, by omega⟩
    rw [readPrefix.go, readBit_of_holds (r := ⟨data, pos⟩) h]
    simp only [lift_ok, Except.ok_bind, Bool.false_eq_true, if_false]
    congr 2
    omega
  | succ k ih =>
    obtain ⟨fuel, rfl⟩ : ∃ f, fuel = f + 1 := ⟨fuel - 1, by omega⟩
    rw [List.replicate_succ, List.cons_append] at h
    rw [readPrefix.go, readBit_of_holds (r := ⟨data, pos⟩) h]
    simp only [lift_ok, Except.ok_bind, if_true]
    rw [ih (by omega) h.tail]
    have hval : (2 * acc + 1 + 1) * 2 ^ (k + 1) = (acc + 1) * 2 ^ (k + 1 + 1) := by
      rw [Nat.pow_succ 2 (k + 1)]
      ring
    rw [hval, show pos + 1 + k + 1 = pos + (k + 1) + 1 by omega]

/-- Four set bits end the prefix without a clear bit: they read as 15. -/
theorem readPrefix_go_ones (fuel : Nat) {acc : Nat} (h : Holds data pos (List.replicate fuel true)) :
    readPrefix.go ⟨data, pos⟩ acc fuel = .ok ((acc + 1) * 2 ^ fuel - 1, ⟨data, pos + fuel⟩) := by
  induction fuel generalizing pos acc with
  | zero =>
    rw [readPrefix.go]
    simp
    rfl
  | succ fuel ih =>
    rw [List.replicate_succ] at h
    rw [readPrefix.go, readBit_of_holds (r := ⟨data, pos⟩) h]
    simp only [lift_ok, Except.ok_bind, if_true]
    have hval : (2 * acc + 1 + 1) * 2 ^ fuel = (acc + 1) * 2 ^ (fuel + 1) := by
      rw [Nat.pow_succ]
      ring
    rw [ih h.tail, hval, show pos + 1 + fuel = pos + (fuel + 1) by omega]

/-- The signed number of an `n`-bit two's complement pattern. -/
theorem readSigned_of_holds {n : Nat} (hn : n = 7 ∨ n = 9 ∨ n = 12) {dd : Int64}
    (h₁ : -(2 ^ (n - 1) : Int) < dd.toInt) (h₂ : dd.toInt ≤ 2 ^ (n - 1))
    (h : Holds data pos (bitsOf dd.toUInt64 n)) :
    readSigned ⟨data, pos⟩ n = .ok (dd, ⟨data, pos + n⟩) := by
  have hcond := Gorilla.toInt_eq_of_toUInt64 dd
  have hlt := dd.toUInt64.toNat_lt
  rw [readSigned, readBits_of_holds (by omega) h]
  simp only [lift_ok, Except.ok_bind, UInt64.toNat_ofNat', Nat.pow_eq]
  congr 2
  rw [Int64.ofInt_eq_iff_bmod_eq_toInt]
  rcases hn with rfl | rfl | rfl <;> simp only [Nat.reducePow, Nat.reduceSub] at h₁ h₂ ⊢ <;>
    split <;> (rw [Int.bmod_eq_of_le] <;> omega)

/-- A change of the time difference is read back as written. -/
theorem readDeltaOfDelta_writeDeltaOfDelta {w : BitWriter} (hw : w.Valid) (dd : Int64)
    (h : Holds data 0 (GorillaEncoder.writeDeltaOfDelta w dd).bits) :
    readDeltaOfDelta ⟨data, w.bitLength⟩ =
      .ok (dd, ⟨data, (GorillaEncoder.writeDeltaOfDelta w dd).bitLength⟩) := by
  unfold GorillaEncoder.writeDeltaOfDelta at h ⊢
  dsimp only at h ⊢
  by_cases h0 : dd.toInt = 0
  · rw [if_pos h0] at h ⊢
    rw [bits_writeBit hw] at h
    have hp : Holds data w.bitLength (List.replicate 0 true ++ [false]) := by simpa using h.drop
    unfold readDeltaOfDelta readPrefix
    rw [readPrefix_go_zero 0 (by decide) hp, bitLength_writeBit hw]
    have : dd = 0 := Int64.toInt_inj.1 (by simpa using h0)
    simp [this]
    rfl
  rw [if_neg h0] at h ⊢
  have hw2 := hw.writeBits 2 2
  have hw6 := hw.writeBits 6 3
  have hw14 := hw.writeBits 14 4
  have hw15 := hw.writeBits 15 4
  unfold readDeltaOfDelta readPrefix
  by_cases h1 : -63 ≤ dd.toInt ∧ dd.toInt ≤ 64
  · rw [if_pos h1] at h ⊢
    have hp : Holds data w.bitLength (List.replicate 1 true ++ [false]) :=
      holds_bitsOf_writeBits hw (by decide) (holds_of_writeBits hw2 h)
    have hv := holds_bitsOf_writeBits hw2 (by decide) h
    rw [bitLength_writeBits hw] at hv
    rw [readPrefix_go_zero 1 (by decide) hp]
    simp only [Except.ok_bind]
    rw [show w.bitLength + 1 + 1 = w.bitLength + 2 by omega,
      readSigned_of_holds (by decide) (by omega) (by omega) hv, bitLength_writeBits hw2,
      bitLength_writeBits hw]
    rfl
  rw [if_neg h1] at h ⊢
  by_cases h2 : -255 ≤ dd.toInt ∧ dd.toInt ≤ 256
  · rw [if_pos h2] at h ⊢
    have hp : Holds data w.bitLength (List.replicate 2 true ++ [false]) :=
      holds_bitsOf_writeBits hw (by decide) (holds_of_writeBits hw6 h)
    have hv := holds_bitsOf_writeBits hw6 (by decide) h
    rw [bitLength_writeBits hw] at hv
    rw [readPrefix_go_zero 2 (by decide) hp]
    simp only [Except.ok_bind]
    rw [show w.bitLength + 2 + 1 = w.bitLength + 3 by omega,
      readSigned_of_holds (by decide) (by omega) (by omega) hv, bitLength_writeBits hw6,
      bitLength_writeBits hw]
    rfl
  rw [if_neg h2] at h ⊢
  by_cases h3 : -2047 ≤ dd.toInt ∧ dd.toInt ≤ 2048
  · rw [if_pos h3] at h ⊢
    have hp : Holds data w.bitLength (List.replicate 3 true ++ [false]) :=
      holds_bitsOf_writeBits hw (by decide) (holds_of_writeBits hw14 h)
    have hv := holds_bitsOf_writeBits hw14 (by decide) h
    rw [bitLength_writeBits hw] at hv
    rw [readPrefix_go_zero 3 (by decide) hp]
    simp only [Except.ok_bind]
    rw [show w.bitLength + 3 + 1 = w.bitLength + 4 by omega,
      readSigned_of_holds (by decide) (by omega) (by omega) hv, bitLength_writeBits hw14,
      bitLength_writeBits hw]
    rfl
  -- all 64 bits after four set bits
  rw [if_neg h3] at h ⊢
  have hp : Holds data w.bitLength (List.replicate 4 true) :=
    holds_bitsOf_writeBits hw (by decide) (holds_of_writeBits hw15 h)
  have hv := holds_bitsOf_writeBits hw15 (by decide) h
  rw [bitLength_writeBits hw] at hv
  rw [readPrefix_go_ones 4 hp]
  simp only [Except.ok_bind]
  rw [readBits_of_holds (r := ⟨data, w.bitLength + 4⟩) (by decide) hv, bitLength_writeBits hw15,
    bitLength_writeBits hw]
  simp

end GorillaDecoder

namespace GorillaEncoder

/-- What the compressor keeps true between samples: its writer is valid and its window leaves
at least one bit. -/
structure Valid (e : GorillaEncoder) : Prop where
  out : e.out.Valid
  window : e.leading + e.trailing ≤ 63

variable {e : GorillaEncoder}

theorem writeValue_of_eq {v : UInt64} (hv : v = e.value) :
    e.writeValue v = { e with out := e.out.writeBit false } := by
  simp [writeValue, hv]

theorem writeValue_of_reuse {v : UInt64} (hx : v ^^^ e.value ≠ 0)
    (hr : (decide (e.count > 1) && decide (min (Gorilla.leadingZeros (v ^^^ e.value)) 31 ≥ e.leading) &&
      decide (Gorilla.trailingZeros (v ^^^ e.value) ≥ e.trailing)) = true) :
    e.writeValue v =
      { e with out := (((e.out.writeBit true).writeBit false).writeBits
        ((v ^^^ e.value) >>> e.trailing.toUInt64) (64 - e.leading - e.trailing)) } := by
  simp only [writeValue, hx, if_false]
  rw [if_pos hr]

theorem writeValue_of_fresh {v : UInt64} (hx : v ^^^ e.value ≠ 0)
    (hr : ¬(decide (e.count > 1) && decide (min (Gorilla.leadingZeros (v ^^^ e.value)) 31 ≥ e.leading) &&
      decide (Gorilla.trailingZeros (v ^^^ e.value) ≥ e.trailing)) = true) :
    e.writeValue v =
      let x := v ^^^ e.value
      let l := min (Gorilla.leadingZeros x) 31
      let t := Gorilla.trailingZeros x
      { e with
        out := (((((e.out.writeBit true).writeBit true).writeBits l.toUInt64 5).writeBits
          ((64 - l - t) % 64).toUInt64 6).writeBits (x >>> t.toUInt64) (64 - l - t)),
        leading := l, trailing := t } := by
  simp only [writeValue, hx, if_false]
  rw [if_neg hr]

@[simp] theorem count_writeValue (v : UInt64) : (e.writeValue v).count = e.count := by
  unfold writeValue; dsimp only; split <;> (try split) <;> rfl
@[simp] theorem time_writeValue (v : UInt64) : (e.writeValue v).time = e.time := by
  unfold writeValue; dsimp only; split <;> (try split) <;> rfl
@[simp] theorem delta_writeValue (v : UInt64) : (e.writeValue v).delta = e.delta := by
  unfold writeValue; dsimp only; split <;> (try split) <;> rfl

/-- A compressor whose bits extend those of `e` after one more bit is ahead of `e`. -/
theorem valid_of_grows_writeBit (he : e.Valid) {b : Bool} {e' : GorillaEncoder}
    (hg : (e.out.writeBit b).Grows e'.out) (hwin : e'.leading + e'.trailing ≤ 63) :
    e'.Valid ∧ e.out.Grows e'.out ∧ e.out.bitLength < e'.out.bitLength :=
  ⟨⟨hg.valid, hwin⟩, (grows_writeBit he.out b).trans hg, lt_bitLength_of_grows_writeBit he.out hg⟩

/-- Writing a value change keeps the compressor valid and appends at least one bit. -/
theorem valid_writeValue (he : e.Valid) (v : UInt64) :
    (e.writeValue v).Valid ∧ e.out.Grows (e.writeValue v).out ∧
      e.out.bitLength < (e.writeValue v).out.bitLength := by
  have hw1 (b : Bool) := he.out.writeBit b
  by_cases hv : v = e.value
  · rw [writeValue_of_eq hv]
    exact valid_of_grows_writeBit he (Grows.refl (hw1 false)) he.window
  have hx : v ^^^ e.value ≠ 0 := mt UInt64.xor_eq_zero_iff.1 hv
  by_cases hr : (decide (e.count > 1) &&
      decide (min (Gorilla.leadingZeros (v ^^^ e.value)) 31 ≥ e.leading) &&
      decide (Gorilla.trailingZeros (v ^^^ e.value) ≥ e.trailing)) = true
  · -- the previous window
    rw [writeValue_of_reuse hx hr]
    exact valid_of_grows_writeBit he
      ((grows_writeBit (hw1 true) false).trans (grows_writeBits ((hw1 true).writeBit false) _ _))
      he.window
  · -- a new window
    rw [writeValue_of_fresh hx hr]
    dsimp only
    have hsum := Gorilla.leadingZeros_add_trailingZeros hx
    have hw2 := (hw1 true).writeBit true
    refine valid_of_grows_writeBit (b := true) he ?_ (by dsimp only; omega)
    exact (grows_writeBit (hw1 true) true).trans <| (grows_writeBits hw2 _ _).trans <|
      (grows_writeBits (hw2.writeBits _ _) _ _).trans
        (grows_writeBits ((hw2.writeBits _ _).writeBits _ _) _ _)

theorem push_of_count_zero (s : Sample) (h : e.count = 0) :
    e.push s = { e with
      out := (Gorilla.writeVarint e.out s.time).writeBits s.value 64
      time := s.time, value := s.value, count := 1 } := by
  simp [push, h]

theorem push_of_count_one (s : Sample) (h : e.count = 1) :
    e.push s =
      { (({ e with out := Gorilla.writeVarint e.out (s.time - e.time) } : GorillaEncoder).writeValue
          s.value) with
        delta := s.time - e.time, time := s.time, value := s.value, count := 2 } := by
  simp [push, h]

theorem push_of_count_add_two (s : Sample) {n : Nat} (h : e.count = n + 2) :
    e.push s =
      { (({ e with out := writeDeltaOfDelta e.out (s.time - e.time - e.delta) } :
            GorillaEncoder).writeValue s.value) with
        delta := s.time - e.time, time := s.time, value := s.value, count := n + 3 } := by
  simp [push, h]

/-- A value change written after any writes keeps the compressor valid and ahead. -/
theorem valid_writeValue_of_grows (he : e.Valid) {w : BitWriter} (hg : e.out.Grows w) (v : UInt64) :
    (({ e with out := w } : GorillaEncoder).writeValue v).Valid ∧
      e.out.Grows (({ e with out := w } : GorillaEncoder).writeValue v).out ∧
      e.out.bitLength < (({ e with out := w } : GorillaEncoder).writeValue v).out.bitLength := by
  obtain ⟨hv, hg', hlt⟩ := valid_writeValue (e := { e with out := w }) ⟨hg.valid, he.window⟩ v
  exact ⟨hv, hg.trans hg', Nat.lt_of_le_of_lt hg.bitLength_le hlt⟩

theorem grows_writeDeltaOfDelta {w : BitWriter} (hw : w.Valid) (dd : Int64) :
    w.Grows (writeDeltaOfDelta w dd) := by
  unfold writeDeltaOfDelta
  dsimp only
  split
  · exact grows_writeBit hw false
  split
  · exact (grows_writeBits hw _ _).trans (grows_writeBits (hw.writeBits _ _) _ _)
  split
  · exact (grows_writeBits hw _ _).trans (grows_writeBits (hw.writeBits _ _) _ _)
  split
  · exact (grows_writeBits hw _ _).trans (grows_writeBits (hw.writeBits _ _) _ _)
  · exact (grows_writeBits hw _ _).trans (grows_writeBits (hw.writeBits _ _) _ _)

/-- Appending a sample keeps the compressor valid and appends at least one bit. -/
theorem valid_push (he : e.Valid) (s : Sample) :
    (e.push s).Valid ∧ e.out.Grows (e.push s).out ∧ e.out.bitLength < (e.push s).out.bitLength := by
  rcases hc : e.count with _ | _ | n
  · -- the first sample: its time and all 64 bits of its value
    rw [push_of_count_zero s hc]
    have hv := (Gorilla.grows_writeVarint he.out s.time).valid
    have hg := (Gorilla.grows_writeVarint he.out s.time).trans (grows_writeBits hv s.value 64)
    have hlen := (Gorilla.grows_writeVarint he.out s.time).bitLength_le
    have h64 := bitLength_writeBits hv s.value 64
    dsimp only
    refine ⟨⟨?_, he.window⟩, hg, by omega⟩
    dsimp only
    exact hg.valid
  · rw [push_of_count_one s hc]
    obtain ⟨hv, hg, hlt⟩ :=
      valid_writeValue_of_grows he (Gorilla.grows_writeVarint he.out (s.time - e.time)) s.value
    exact ⟨⟨hv.out, hv.window⟩, hg, hlt⟩
  · rw [push_of_count_add_two s hc]
    obtain ⟨hv, hg, hlt⟩ := valid_writeValue_of_grows he
      (grows_writeDeltaOfDelta he.out (s.time - e.time - e.delta)) s.value
    exact ⟨⟨hv.out, hv.window⟩, hg, hlt⟩

/-- A run of appends keeps the compressor valid and appends at least one bit per sample. -/
theorem valid_foldl_push (ss : List Sample) (he : e.Valid) :
    (ss.foldl push e).Valid ∧ e.out.Grows (ss.foldl push e).out ∧
      e.out.bitLength + ss.length ≤ (ss.foldl push e).out.bitLength := by
  induction ss generalizing e with
  | nil => exact ⟨he, Grows.refl he.out, by simp⟩
  | cons s ss ih =>
    obtain ⟨hv, hg, hlt⟩ := valid_push he s
    obtain ⟨hv', hg', hle⟩ := ih hv
    refine ⟨hv', hg.trans hg', ?_⟩
    simp only [List.foldl_cons, List.length_cons]
    omega

/-- The decompressor that has read what `e` wrote into `data` and keeps `e`'s history. -/
def decoderAt (e : GorillaEncoder) (data : Array UInt8) : GorillaDecoder where
  reader := ⟨data, e.out.bitLength⟩
  count := e.count
  time := e.time
  delta := e.delta
  value := e.value
  leading := e.leading
  trailing := e.trailing

end GorillaEncoder

namespace GorillaDecoder

/-- The decompressor stands where the compressor's next bits begin and has its previous value
and window: all that reading a value change needs. -/
structure ValueAgrees (d : GorillaDecoder) (data : Array UInt8) (e : GorillaEncoder) : Prop where
  reader : d.reader = ⟨data, e.out.bitLength⟩
  value : d.value = e.value
  leading : d.leading = e.leading
  trailing : d.trailing = e.trailing

open GorillaEncoder

variable {e : GorillaEncoder} {d : GorillaDecoder} {data : Array UInt8}

/-- The change of a value is read back as the value, and the window moves as the
compressor's. -/
theorem readValue_writeValue (he : e.Valid) (hd : d.ValueAgrees data e) (v : UInt64)
    (h : Holds data 0 (e.writeValue v).out.bits) :
    d.readValue = .ok { d with
      reader := ⟨data, (e.writeValue v).out.bitLength⟩, value := v,
      leading := (e.writeValue v).leading, trailing := (e.writeValue v).trailing } := by
  by_cases hv : v = e.value
  · rw [GorillaEncoder.writeValue_of_eq hv] at h ⊢
    rw [readValue_same he.out hd.reader h, hv, ← hd.value, ← hd.leading, ← hd.trailing]
  have hx : v ^^^ e.value ≠ 0 := mt UInt64.xor_eq_zero_iff.1 hv
  have hrestore : e.value ^^^ (v ^^^ e.value) = v := by
    rw [UInt64.xor_comm v, ← UInt64.xor_assoc, UInt64.xor_self, UInt64.zero_xor]
  have hlt := Gorilla.lt_two_pow_leadingZeros hx
  have hdvd := Gorilla.two_pow_trailingZeros_dvd (v ^^^ e.value)
  have hsum := Gorilla.leadingZeros_add_trailingZeros hx
  by_cases hr : (decide (e.count > 1) &&
      decide (min (Gorilla.leadingZeros (v ^^^ e.value)) 31 ≥ e.leading) &&
      decide (Gorilla.trailingZeros (v ^^^ e.value) ≥ e.trailing)) = true
  · -- the change fits the previous window
    have hwin := hr
    simp only [Bool.and_eq_true, decide_eq_true_eq] at hwin
    obtain ⟨⟨-, hl⟩, ht⟩ := hwin
    rw [GorillaEncoder.writeValue_of_reuse hx hr] at h ⊢
    rw [← hd.leading, ← hd.trailing] at h
    rw [readValue_reuse he.out hd.reader _ h, hd.leading, hd.trailing, hd.value,
      Gorilla.window_restore
        (Nat.lt_of_lt_of_le hlt (Nat.pow_le_pow_right (by omega) (by omega)))
        (Nat.dvd_trans (Nat.pow_dvd_pow 2 ht) hdvd) he.window, hrestore]
  · -- a new window
    rw [GorillaEncoder.writeValue_of_fresh hx hr] at h ⊢
    dsimp only at h ⊢
    rw [readValue_fresh he.out hd.reader (by omega) (by omega) (by omega) _ h,
      show 64 - min (Gorilla.leadingZeros (v ^^^ e.value)) 31 -
        (64 - min (Gorilla.leadingZeros (v ^^^ e.value)) 31 - Gorilla.trailingZeros (v ^^^ e.value)) =
        Gorilla.trailingZeros (v ^^^ e.value) by omega,
      Gorilla.window_restore
        (Nat.lt_of_lt_of_le hlt (Nat.pow_le_pow_right (by omega) (by omega))) hdvd (by omega),
      hd.value, hrestore]

/-- One step of the lockstep: the decompressor that has read what the compressor wrote reads
the next sample back and is then where the compressor is after writing it. -/
theorem next_decoderAt_push (he : e.Valid) (s : Sample) (h : Holds data 0 (e.push s).out.bits) :
    (e.decoderAt data).next = .ok (s, (e.push s).decoderAt data) := by
  rcases hc : e.count with _ | _ | n
  · rw [push_of_count_zero s hc] at h ⊢
    dsimp only at h
    have hv := (Gorilla.grows_writeVarint he.out s.time).valid
    unfold next
    simp only [decoderAt, hc]
    rw [Gorilla.readVarint_writeVarint he.out s.time (h.of_grows (grows_writeBits hv s.value 64))]
    simp only [Except.ok_bind]
    rw [readBits_writeBits hv (by decide) h]
    simp
  · rw [push_of_count_one s hc] at h ⊢
    have hg := Gorilla.grows_writeVarint he.out (s.time - e.time)
    have he₁ : ({ e with out := Gorilla.writeVarint e.out (s.time - e.time) } : GorillaEncoder).Valid :=
      ⟨hg.valid, he.window⟩
    unfold next
    simp only [decoderAt, hc]
    rw [Gorilla.readVarint_writeVarint he.out _ (h.of_grows (valid_writeValue he₁ s.value).2.1)]
    simp only [Except.ok_bind]
    rw [readValue_writeValue he₁ ⟨rfl, rfl, rfl, rfl⟩ s.value h]
    have ht : e.time + (s.time - e.time) = s.time := by grind
    simp [hc, ht]
  · rw [push_of_count_add_two s hc] at h ⊢
    have hg := grows_writeDeltaOfDelta he.out (s.time - e.time - e.delta)
    have he₂ : ({ e with out := writeDeltaOfDelta e.out (s.time - e.time - e.delta) } :
        GorillaEncoder).Valid := ⟨hg.valid, he.window⟩
    unfold next
    simp only [decoderAt, hc]
    rw [readDeltaOfDelta_writeDeltaOfDelta he.out _ (h.of_grows (valid_writeValue he₂ s.value).2.1)]
    simp only [Except.ok_bind]
    rw [readValue_writeValue he₂ ⟨rfl, rfl, rfl, rfl⟩ s.value h]
    have hd : e.delta + (s.time - e.time - e.delta) = s.time - e.time := by grind
    have ht : e.time + (s.time - e.time) = s.time := by grind
    simp [hc, hd, ht]

end GorillaDecoder

namespace Gorilla
open GorillaEncoder

/-- The lockstep over a run: reading `k` samples where the compressor continued with `ss`
gives the first `k` of them. -/
theorem decode_go_decoderAt {e : GorillaEncoder} {data : Array UInt8} (ss : List Sample)
    (he : e.Valid) (h : Holds data 0 (ss.foldl push e).out.bits) (acc : Array Sample) {k : Nat}
    (hk : k ≤ ss.length) :
    decode.go (e.decoderAt data) k acc = .ok (acc.toList ++ ss.take k) := by
  induction ss generalizing e acc k with
  | nil =>
    rw [Nat.le_zero.1 hk, decode.go]
    simp
  | cons s ss ih =>
    cases k with
    | zero => simp [decode.go]
    | succ k =>
      obtain ⟨hv, -, -⟩ := valid_push he s
      have hs : Holds data 0 (e.push s).out.bits := h.of_grows (valid_foldl_push ss hv).2.1
      rw [decode.go, GorillaDecoder.next_decoderAt_push he s hs]
      simp only [Except.ok_bind]
      rw [ih hv h (acc.push s) (by simpa using hk)]
      simp

/-- Decompressing the first `m` samples of a compressed stream gives them back exactly: the
same times and the same 64-bit value patterns. -/
theorem decode_encode (ss : List Sample) {m : Nat} (hm : m ≤ ss.length) :
    decode (encode ss) m = .ok (ss.take m) := by
  have he : ({} : GorillaEncoder).Valid := ⟨valid_empty, by decide⟩
  obtain ⟨-, -, hlen⟩ := valid_foldl_push ss he
  have hbits : (ss.foldl push {}).out.bitLength ≤ (encode ss).size * 8 := by
    simp only [encode, BitWriter.bitLength]
    omega
  have hstart : ({ reader := BitReader.ofBytes (encode ss) } : GorillaDecoder) =
      ({} : GorillaEncoder).decoderAt (encode ss) := rfl
  have hrem : ¬ m > (BitReader.ofBytes (encode ss)).remaining := by
    simp only [BitReader.remaining, BitReader.ofBytes]
    simp at hlen
    omega
  unfold decode
  dsimp only
  have hh : Holds (encode ss) 0 (ss.foldl push {}).out.bits := holds_bits _
  rw [if_neg hrem, hstart, decode_go_decoderAt ss he hh #[] hm]
  rfl

/-- A time that goes back, a negative zero and a NaN with a payload come back unchanged. -/
theorem decode_encode_backwards_nan :
    2 ≤ [(⟨7, 0x8000000000000000⟩ : Sample), ⟨-5, 0x7FF8000000000001⟩, ⟨-5, 0⟩].length ∧
      decode (encode [⟨7, 0x8000000000000000⟩, ⟨-5, 0x7FF8000000000001⟩, ⟨-5, 0⟩]) 2 =
        .ok ([(⟨7, 0x8000000000000000⟩ : Sample), ⟨-5, 0x7FF8000000000001⟩, ⟨-5, 0⟩].take 2) :=
  ⟨by decide, decode_encode _ (by decide)⟩

end Gorilla
end FrameCache

