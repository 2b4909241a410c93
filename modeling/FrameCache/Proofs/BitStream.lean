import Mathlib
import FrameCache.Proofs.Bits

/-!
# Bit streams are exact

A byte string stands for its bits, each byte's highest bit first (`bitsOfBytes`). A write to a
stream is one bit, the eight bits of a byte, or the low `n` bits of a word (`BitWrite`), and its
contents are those bits, highest first.

Main statement (`bitStream_exact`). After any sequence of writes from the empty writer, each at
most 64 bits wide, the bytes are the contents of the writes one after another, padded with zero
bits to a whole byte, and their number is the number of bits written rounded up to bytes. Reading
from any byte string at any position gives the next bit, or the number the next `n` bits spell
highest first, and moves past exactly them. A read of more than 64 bits, or of more bits than
are left, fails, and a failed read gives no new position. However much of a read takes the
byte-aligned path, it gives what the bit loop alone gives.
-/

namespace FrameCache

/-- A write to a bit stream. -/
inductive BitWrite where
  /-- One bit. -/
  | bit (b : Bool)
  /-- The eight bits of a byte. -/
  | byte (x : UInt8)
  /-- The low `n` bits of a word. -/
  | word (v : UInt64) (n : Nat)

namespace BitWrite

/-- Performs the write. -/
def apply (w : BitWriter) : BitWrite → BitWriter
  | .bit b => w.writeBit b
  | .byte x => w.writeByte x
  | .word v n => w.writeBits v n

/-- The number of bits the write appends. -/
def width : BitWrite → Nat
  | .bit _ => 1
  | .byte _ => 8
  | .word _ n => n

/-- The bits the write appends, highest first. -/
def contents : BitWrite → List Bool
  | .bit b => [b]
  | .byte x => (List.range 8).map fun i => x.toNat.testBit (7 - i)
  | .word v n => (List.range n).map fun i => v.toNat.testBit (n - 1 - i)

/-- The writer after a sequence of writes from the empty one. -/
def run (ws : List BitWrite) : BitWriter := ws.foldl apply BitWriter.empty

variable {w : BitWriter}

theorem bitsOf_eq_testBits {v : UInt64} {n : Nat} (hn : n ≤ 64) :
    BitWriter.bitsOf v n = (List.range n).map fun i => v.toNat.testBit (n - 1 - i) := by
  apply List.ext_getElem (by simp)
  intro i h₁ h₂
  rw [BitWriter.getElem_bitsOf hn]
  simp

/-- One write of at most 64 bits appends its contents and keeps the writer valid. -/
theorem apply_spec (hw : w.Valid) (x : BitWrite) (hx : x.width ≤ 64) :
    (apply w x).Valid ∧ (apply w x).bits = w.bits ++ x.contents := by
  cases x with
  | bit b => exact ⟨hw.writeBit b, BitWriter.bits_writeBit hw b⟩
  | byte x =>
    refine ⟨hw.writeByte x, ?_⟩
    rw [apply, BitWriter.bits_writeByte hw, bitsOf_eq_testBits (by decide)]
    simp [contents]
  | word v n =>
    have hn : n ≤ 64 := hx
    refine ⟨hw.writeBits v n, ?_⟩
    rw [apply, BitWriter.bits_writeBits hw v hn, bitsOf_eq_testBits hn]
    rfl

/-- Writes of at most 64 bits each append their contents one after another. -/
theorem foldl_apply_spec (ws : List BitWrite) (hws : ∀ x ∈ ws, x.width ≤ 64) (hw : w.Valid) :
    (ws.foldl apply w).Valid ∧ (ws.foldl apply w).bits = w.bits ++ ws.flatMap contents := by
  induction ws generalizing w with
  | nil => simp [hw]
  | cons x ws ih =>
    obtain ⟨hv, hb⟩ := apply_spec hw x (hws x List.mem_cons_self)
    obtain ⟨hv', hb'⟩ := ih (fun y hy => hws y (List.mem_cons_of_mem _ hy)) hv
    refine ⟨hv', ?_⟩
    rw [List.foldl_cons, hb', hb, List.flatMap_cons, List.append_assoc]

end BitWrite

/-- The bits of a byte string, each byte's highest bit first. -/
def bitsOfBytes (data : Array UInt8) : List Bool :=
  data.toList.flatMap fun b => (List.range 8).map fun i => b.toNat.testBit (7 - i)

@[simp] theorem length_bitsOfBytes (data : Array UInt8) : (bitsOfBytes data).length = data.size * 8 := by
  simp [bitsOfBytes, List.length_flatMap]

theorem getElem?_flatMap_byteBits (l : List UInt8) (i : Nat) :
    (l.flatMap fun b => (List.range 8).map fun i => b.toNat.testBit (7 - i))[i]? =
      l[i / 8]?.map fun b => b.toNat.testBit (7 - i % 8) := by
  induction l generalizing i with
  | nil => simp
  | cons x l ih =>
    rw [List.flatMap_cons]
    by_cases hi : i < 8
    · rw [List.getElem?_append_left (by simpa using hi)]
      simp [hi, Nat.div_eq_of_lt hi, Nat.mod_eq_of_lt hi]
    · rw [List.getElem?_append_right (by simp; omega), ih]
      simp only [List.length_map, List.length_range]
      rw [show i / 8 = (i - 8) / 8 + 1 by omega, List.getElem?_cons_succ,
        show (i - 8) % 8 = i % 8 by omega]

/-- Bit `i` of a byte string is the bit the reader finds there. -/
theorem getElem_bitsOfBytes (data : Array UInt8) {i : Nat} (hi : i < (bitsOfBytes data).length) :
    (bitsOfBytes data)[i] = BitReader.bitAt data i := by
  rw [length_bitsOfBytes] at hi
  have h := getElem?_flatMap_byteBits data.toList i
  rw [BitReader.bitAt_eq, dif_pos (by omega)]
  rw [← bitsOfBytes, List.getElem?_eq_getElem (by simp; omega), Array.getElem?_toList,
    Array.getElem?_eq_getElem (by omega)] at h
  simpa using h

namespace BitWriter

/-- The bytes of a valid writer are its bits padded with zero bits to a whole byte, and their
number is the number of bits rounded up to bytes. -/
theorem bytes_of_valid {w : BitWriter} (hw : w.Valid) :
    w.length = (w.bits.length + 7) / 8 ∧
      bitsOfBytes w.bytes = w.bits ++ List.replicate (w.length * 8 - w.bits.length) false := by
  have := hw.free_lt
  have := hw.free_le
  refine ⟨by simp only [length, length_bits, bitLength]; omega, ?_⟩
  apply List.ext_getElem (by simp [length, bitLength])
  intro i h₁ h₂
  rw [getElem_bitsOfBytes]
  by_cases hi : i < w.bits.length
  · rw [List.getElem_append_left hi]
    simp [bits]
  · rw [List.getElem_append_right (by omega), List.getElem_replicate]
    exact hw.padding i (by simpa using hi)

end BitWriter

namespace BitReader

/-- The next `n` bits of a byte string from `pos`, when they are there, are those the bit loop
reads. -/
theorem take_drop_bitsOfBytes {data : Array UInt8} {pos n : Nat} (h : pos + n ≤ data.size * 8) :
    ((bitsOfBytes data).drop pos).take n = (List.range n).map fun i => bitAt data (pos + i) := by
  apply List.ext_getElem (by simp; omega)
  intro i h₁ h₂
  simp only [List.getElem_take, List.getElem_drop, List.getElem_map, List.getElem_range]
  exact getElem_bitsOfBytes data _

/-- The bit loop from the start spells the next `n` bits, highest first. -/
theorem shiftIn_zero_eq {data : Array UInt8} {pos n : Nat} (h : pos + n ≤ data.size * 8) :
    shiftIn data pos 0 n = UInt64.ofNat (msbValue (((bitsOfBytes data).drop pos).take n)) := by
  apply UInt64.toNat_inj.1
  rw [toNat_shiftIn, take_drop_bitsOfBytes h, UInt64.toNat_ofNat]
  simp

/-- Reading a bit gives the next bit and moves past it; with no bit left it fails. -/
theorem readBit_eq_next (r : BitReader) :
    r.readBit =
      match (bitsOfBytes r.data).drop r.pos with
      | b :: _ => .ok (b, { r with pos := r.pos + 1 })
      | [] => .error .exhausted := by
  by_cases h : r.pos < r.data.size * 8
  · rw [List.drop_eq_getElem_cons (by simpa using h), getElem_bitsOfBytes]
    simp [readBit, h]
  · rw [List.drop_eq_nil_of_le (by simp; omega)]
    simp [readBit, h]

/-- The bit loop alone reads what `readBits` reads, once its checks pass. -/
theorem readBits_eq_readSingleBits (r : BitReader) (n : Nat) :
    r.readBits n =
      if n > 64 then .error .tooWide
      else if r.remaining < n then .error .exhausted
      else r.readSingleBits 0 n := by
  rw [readBits_eq]
  split_ifs with h₁ h₂
  · rfl
  · rfl
  · rcases Nat.eq_zero_or_pos n with rfl | hn
    · simp [readSingleBits, shiftIn]
    · rw [readSingleBits_eq r 0 n (by simp only [remaining] at h₂; omega)]

/-- Reading `n` bits gives the number the next `n` bits spell, highest first, and moves past
them; it fails when `n` passes 64 or fewer than `n` bits are left. -/
theorem readBits_eq_next (r : BitReader) (n : Nat) :
    r.readBits n =
      if n > 64 then .error .tooWide
      else if ((bitsOfBytes r.data).drop r.pos).length < n then .error .exhausted
      else .ok (UInt64.ofNat (msbValue (((bitsOfBytes r.data).drop r.pos).take n)),
        { r with pos := r.pos + n }) := by
  rw [readBits_eq]
  simp only [remaining, List.length_drop, length_bitsOfBytes]
  split_ifs with h₁ h₂
  · rfl
  · simp [h₂]
  · rcases Nat.eq_zero_or_pos n with rfl | hn
    · simp [shiftIn, msbValue]
    · simp [h₂, shiftIn_zero_eq (show r.pos + n ≤ r.data.size * 8 by omega)]

end BitReader

/-- Writing and reading bit streams is exact. After writes of at most 64 bits each from the
empty writer, the bytes are the contents of the writes one after another, padded with zero bits
to a whole byte, and their number is the number of bits written rounded up to bytes. Reading a
bit gives the next bit, and reading `n` bits the number the next `n` bits spell highest first,
moving past exactly them; reading more than 64 bits, or more bits than are left, fails. The
byte-aligned path of a read gives what the bit loop alone gives. -/
theorem bitStream_exact :
    (∀ ws : List BitWrite, (∀ x ∈ ws, x.width ≤ 64) →
      (BitWrite.run ws).length = ((ws.flatMap BitWrite.contents).length + 7) / 8 ∧
        bitsOfBytes (BitWrite.run ws).bytes = ws.flatMap BitWrite.contents ++
          List.replicate ((BitWrite.run ws).length * 8 - (ws.flatMap BitWrite.contents).length) false) ∧
    (∀ r : BitReader, r.readBit =
      match (bitsOfBytes r.data).drop r.pos with
      | b :: _ => .ok (b, { r with pos := r.pos + 1 })
      | [] => .error .exhausted) ∧
    (∀ (r : BitReader) (n : Nat), r.readBits n =
      if n > 64 then .error .tooWide
      else if ((bitsOfBytes r.data).drop r.pos).length < n then .error .exhausted
      else .ok (UInt64.ofNat (BitReader.msbValue (((bitsOfBytes r.data).drop r.pos).take n)),
        { r with pos := r.pos + n })) ∧
    (∀ (r : BitReader) (n : Nat), r.readBits n =
      if n > 64 then .error .tooWide
      else if r.remaining < n then .error .exhausted
      else r.readSingleBits 0 n) := by
  refine ⟨fun ws hws => ?_, BitReader.readBit_eq_next, BitReader.readBits_eq_next,
    BitReader.readBits_eq_readSingleBits⟩
  obtain ⟨hv, hb⟩ := BitWrite.foldl_apply_spec ws hws BitWriter.valid_empty
  have h := BitWriter.bytes_of_valid hv
  rw [hb, BitWriter.bits_empty, List.nil_append] at h
  exact h

/-- The writes of three bits, four bits of a word, a byte and a whole word, one after another. -/
def interleavedWrites : List BitWrite :=
  [.bit true, .bit false, .bit true, .word 0b1010 4, .byte 0xFF, .word 0xFFFFFFFFFFFFFFFF 64]

/-- Bits, part of a word, a byte and a whole word written one after another are packed as the
exact bit string. -/
theorem bitStream_exact_interleaved :
    (∀ x ∈ interleavedWrites, x.width ≤ 64) ∧
      (BitWrite.run interleavedWrites).length =
          ((interleavedWrites.flatMap BitWrite.contents).length + 7) / 8 ∧
        bitsOfBytes (BitWrite.run interleavedWrites).bytes = interleavedWrites.flatMap BitWrite.contents ++
          List.replicate ((BitWrite.run interleavedWrites).length * 8 -
            (interleavedWrites.flatMap BitWrite.contents).length) false :=
  ⟨by decide, bitStream_exact.1 interleavedWrites (by decide)⟩

end FrameCache
