import Mathlib
import FrameCache.Proofs.Bits
import FrameCache.Proofs.Stats
import FrameCache.Proofs.WellFormed

/-!
# Decoding untrusted bytes stays in range

A partition file read back may have been written by anyone: its header length, its section
extents, its row count and every bit of its compressed streams are untrusted. Decoding is
total, so what there is to show is that every step stays inside the ranges its arithmetic
is meant for.

The decompressor keeps a window of leading and trailing zeros from one value change to the
next. In every state reached from the start of a stream the window fits one 64-bit word
(`GorillaDecoder.WindowFits`): `leading` fits the five bits it is read from and
`leading + trailing < 64`, so the width `64 - leading - trailing` of the next change is never
cut off at zero and the shift by `trailing` stays below 64. The start has an empty window, and
each decoded sample keeps the property (`GorillaDecoder.windowFits_next`), since a new window is
accepted only when `leading` and its width fit together.

Around it: a stream decodes to exactly the number of samples asked for, a section is read only
when it lies inside the body, and a decoded frame has the header's row count in its index and
in every column.
-/

namespace FrameCache

namespace BitReader

/-- Bits shifted in one at a time from zero make a number below `2 ^ k`, while they fit. -/
theorem foldl_shift_or_lt (b : Nat → Bool) :
    ∀ k ≤ 64, ((List.range k).foldl
      (fun (acc : UInt64) i => (acc <<< 1) ||| (if b i then 1 else 0)) (0 : UInt64)).toNat < 2 ^ k
  | 0, _ => by simp
  | k + 1, hk => by
    rw [List.range_succ, List.foldl_append, List.foldl_cons, List.foldl_nil]
    have ih := foldl_shift_or_lt b k (by omega)
    generalize (List.range k).foldl
      (fun (acc : UInt64) i => (acc <<< 1) ||| (if b i then 1 else 0)) (0 : UInt64) = acc at ih ⊢
    have hshift : (acc <<< 1).toNat < 2 ^ (k + 1) := by
      simp only [UInt64.toNat_shiftLeft]
      rw [show ((1 : UInt64).toNat % 64) = 1 from rfl, Nat.shiftLeft_eq, Nat.pow_succ]
      exact Nat.lt_of_le_of_lt (Nat.mod_le _ _) (by omega)
    have hbit : (if b k then (1 : UInt64) else 0).toNat < 2 ^ (k + 1) := by
      split
      · rw [UInt64.toNat_one]
        exact Nat.one_lt_two_pow (by omega)
      · rw [UInt64.toNat_zero]
        exact Nat.two_pow_pos _
    rw [UInt64.toNat_or]
    exact Nat.or_lt_two_pow hshift hbit

/-- A read of `n` bits gives a number below `2 ^ n`. -/
theorem readBits_lt {r r' : BitReader} {n : Nat} {v : UInt64} (h : r.readBits n = .ok (v, r')) :
    v.toNat < 2 ^ n := by
  rw [readBits_eq] at h
  split at h
  · cases h
  · rename_i hn
    split at h
    · cases h
    · cases h
      exact foldl_shift_or_lt _ n (by omega)

end BitReader

namespace GorillaDecoder

variable {d d' : GorillaDecoder} {s : Sample}

/-- The value window of a decompressor fits one 64-bit word: `leading` fits the five bits it
is read from, and the window is at least one bit wide. -/
structure WindowFits (d : GorillaDecoder) : Prop where
  leading_lt : d.leading < 32
  add_lt : d.leading + d.trailing < 64

/-- The shift by `trailing` that places a value change stays below 64. -/
theorem WindowFits.trailing_lt (h : d.WindowFits) : d.trailing < 64 := by
  have := h.add_lt
  omega

/-- The width of a change in the window is between 1 and 64 bits, with nothing cut off. -/
theorem WindowFits.width (h : d.WindowFits) :
    0 < 64 - d.leading - d.trailing ∧ d.leading + d.trailing + (64 - d.leading - d.trailing) = 64 := by
  have := h.add_lt
  omega

theorem windowFits_start (r : BitReader) : ({ reader := r } : GorillaDecoder).WindowFits where
  leading_lt := by simp
  add_lt := by simp

theorem lift_eq_ok {α : Type} {x : Except BitsError α} {a : α} : lift x = .ok a ↔ x = .ok a := by
  cases x <;> simp [lift]

/-- What reading a value change does to the window: it keeps the old one, or takes a new one
whose leading zeros were read from five bits and which passed the check that the leading
zeros and the width fit in 64 bits together. -/
theorem window_readValue (h : d.readValue = .ok d') :
    (d'.leading = d.leading ∧ d'.trailing = d.trailing) ∨
    (∃ leading : UInt64, ∃ r r' : BitReader, r.readBits 5 = .ok (leading, r') ∧
      d'.leading = leading.toNat ∧ d'.leading + d'.trailing < 64) := by
  unfold readValue at h
  rw [Except.bind_eq_ok] at h
  obtain ⟨⟨changed, r⟩, -, h⟩ := h
  dsimp only at h
  split at h
  · -- no change
    left
    cases h
    exact ⟨rfl, rfl⟩
  · rw [Except.bind_eq_ok] at h
    obtain ⟨⟨fresh, r⟩, -, h⟩ := h
    dsimp only at h
    split at h
    · -- a new window: five bits of leading zeros, six of width (`0` for 64)
      rw [Except.bind_eq_ok] at h
      obtain ⟨⟨leading, r₁⟩, hlead, h⟩ := h
      rw [Except.bind_eq_ok] at h
      obtain ⟨⟨sig, r₂⟩, -, h⟩ := h
      dsimp only at h
      have hpos : 0 < if sig.toNat = 0 then 64 else sig.toNat := by split <;> omega
      generalize (if sig.toNat = 0 then 64 else sig.toNat) = significant at h hpos
      split at h
      · rw [Except.bind_eq_ok] at h
        obtain ⟨_, h, -⟩ := h
        cases h
      · rename_i hfit
        simp only [pure_bind, Except.bind_eq_ok] at h
        obtain ⟨_, -, h⟩ := h
        cases h
        right
        refine ⟨leading, r, r₁, lift_eq_ok.1 hlead, rfl, ?_⟩
        simp only
        omega
    · -- the previous window
      simp only [pure_bind, Except.bind_eq_ok] at h
      obtain ⟨_, -, h⟩ := h
      cases h
      left
      exact ⟨rfl, rfl⟩

/-- Reading a value change keeps the window fitting. -/
theorem windowFits_readValue (hd : d.WindowFits) (h : d.readValue = .ok d') : d'.WindowFits := by
  rcases window_readValue h with ⟨hl, ht⟩ | ⟨leading, r, r', hread, hl, hfit⟩
  · exact ⟨hl ▸ hd.leading_lt, by rw [hl, ht]; exact hd.add_lt⟩
  · have hlt := BitReader.readBits_lt hread
    exact ⟨by rw [hl]; simpa using hlt, hfit⟩

/-- Decoding a sample keeps the window fitting: the first sample leaves it as it was, every
later one reads a value change. -/
theorem windowFits_next (hd : d.WindowFits) (h : d.next = .ok (s, d')) : d'.WindowFits := by
  unfold next at h
  dsimp only at h
  split at h
  · -- the first sample: a time and a whole value, with the window as it was
    simp only [Except.bind_eq_ok] at h
    obtain ⟨_, -, _, -, _, hp, hq⟩ := h
    cases hp
    cases hq
    exact ⟨hd.leading_lt, hd.add_lt⟩
  all_goals
    -- every later sample: a time difference, then a value change
    simp only [Except.bind_eq_ok] at h
    obtain ⟨_, -, d₁, h₁, hq⟩ := h
    cases hq
    -- the window the change is read in is the one before the sample
    have hd₁ := windowFits_readValue (by exact ⟨hd.leading_lt, hd.add_lt⟩) h₁
    exact ⟨hd₁.leading_lt, hd₁.add_lt⟩

/-- The states a decompressor passes through reading a stream: the start, and the state after
each sample decoded from a state it reached. -/
inductive Reaches (data : Array UInt8) : GorillaDecoder → Prop where
  | start : Reaches data { reader := BitReader.ofBytes data }
  | next {d d' : GorillaDecoder} {s : Sample} : Reaches data d → d.next = .ok (s, d') → Reaches data d'

/-- Every state reached reading a stream has its window fitting. -/
theorem Reaches.windowFits {data : Array UInt8} (h : Reaches data d) : d.WindowFits := by
  induction h with
  | start => exact windowFits_start _
  | next _ hstep ih => exact windowFits_next ih hstep

end GorillaDecoder

namespace Gorilla

/-- A stream decodes to exactly the number of samples asked for, or fails. -/
theorem length_decode {data : Array UInt8} {n : Nat} {ss : List Sample} (h : decode data n = .ok ss) :
    ss.length = n := by
  unfold decode at h
  dsimp only at h
  split at h
  · rw [Except.bind_eq_ok] at h
    obtain ⟨_, h, -⟩ := h
    cases h
  · simpa using length_decode_go h

end Gorilla

namespace PartitionCodec

/-- A section is read only when it lies inside the body, and then it is read whole. A body
shorter than the largest 64-bit value is every body there is. -/
theorem slice_eq_ok {body : Array UInt8} {s : Section} {what : String} {bs : Array UInt8}
    (hbody : body.size < u64Max) (h : slice body s what = .ok bs) :
    s.offset + s.size ≤ body.size ∧ bs.size = s.size := by
  unfold slice at h
  dsimp only at h
  split at h
  · cases h
  · rename_i hle
    cases h
    -- the end of the section is not cut off at the largest 64-bit value
    have hstop : min (s.offset + s.size) u64Max = s.offset + s.size := by omega
    rw [hstop] at hle ⊢
    simp only [Array.size_extract]
    omega

/-- A decoded frame has the header's row count in its index and in every column. -/
theorem sizes_decode {bytes : ByteArray} {h : PartitionHeader} {f : Frame}
    (hd : decode bytes = .ok (h, f)) : f.size = h.rows ∧ ∀ m ∈ f.columns, m.2.size = h.rows := by
  have hrows := (decode_eq_ok hd).2
  refine ⟨hrows, fun m hm => ?_⟩
  rw [← hrows]
  exact (Frame.wellFormed_decode hd).sizes m hm

end PartitionCodec

/-- Decoding untrusted bytes stays in range. Every state the decompressor reaches keeps its
value window inside one word, so the shift placing a value change is below 64 and the width
of the change is not cut off at zero; a stream decodes to exactly the samples asked for; a
section is read only when it lies inside the body; and a decoded frame has the header's row
count in its index and in every column. -/
theorem decoding_untrusted_bytes_stays_in_range :
    (∀ (data : Array UInt8) (d : GorillaDecoder), GorillaDecoder.Reaches data d →
      d.leading < 32 ∧ d.trailing < 64 ∧ d.leading + d.trailing < 64) ∧
    (∀ (data : Array UInt8) (n : Nat) (ss : List Sample), Gorilla.decode data n = .ok ss →
      ss.length = n) ∧
    (∀ (body : Array UInt8) (s : Section) (what : String) (bs : Array UInt8),
      body.size < PartitionCodec.u64Max → PartitionCodec.slice body s what = .ok bs →
        s.offset + s.size ≤ body.size ∧ bs.size = s.size) ∧
    (∀ (bytes : ByteArray) (h : PartitionHeader) (f : Frame), PartitionCodec.decode bytes = .ok (h, f) →
      f.size = h.rows ∧ ∀ m ∈ f.columns, m.2.size = h.rows) := by
  refine ⟨fun data d hd => ?_, fun _ _ _ => Gorilla.length_decode,
    fun _ _ _ _ => PartitionCodec.slice_eq_ok, fun _ _ _ => PartitionCodec.sizes_decode⟩
  have hfits := hd.windowFits
  exact ⟨hfits.leading_lt, hfits.trailing_lt, hfits.add_lt⟩

/-- The start of a stream fits its window, and a section two bytes into a four-byte body is
read whole. -/
theorem decoding_untrusted_bytes_start_and_section :
    (({ reader := BitReader.ofBytes #[0] } : GorillaDecoder).leading < 32 ∧
      ({ reader := BitReader.ofBytes #[0] } : GorillaDecoder).trailing < 64 ∧
      ({ reader := BitReader.ofBytes #[0] } : GorillaDecoder).leading +
        ({ reader := BitReader.ofBytes #[0] } : GorillaDecoder).trailing < 64) ∧
    (1 + 2 ≤ (#[7, 8, 9, 10] : Array UInt8).size ∧ (#[8, 9] : Array UInt8).size = 2) :=
  ⟨decoding_untrusted_bytes_stays_in_range.1 #[0] _ .start,
    decoding_untrusted_bytes_stays_in_range.2.2.1 #[7, 8, 9, 10] ⟨1, 2⟩ "index" #[8, 9]
      (by decide) rfl⟩

end FrameCache
