import FrameCache.Codec.Bits

/-!
# Compressed sample streams

A sample is a signed 64-bit time and the 64-bit pattern of a double. A stream of samples is
compressed in the manner of the Gorilla time-series store:

* The first time is a varint: the zigzag code of the time (`2t` for `t ≥ 0`, `-2t - 1`
  otherwise) in groups of seven bits, lowest first, each group a byte whose high bit says
  that more follow. The second time is a varint of its difference from the first. Every
  later time is coded by the change of the difference (its *delta of delta*): `0` for none,
  then `10`, `110` or `1110` followed by 7, 9 or 12 bits of two's complement for changes in
  `-63..64`, `-255..256` or `-2047..2048`, else `1111` and all 64 bits. Differences wrap
  around at 64 bits.
* The first value is its 64 bits. Every later value is coded by its XOR with the previous
  one: `0` when they are equal; otherwise `1`, then either `0` and the XOR's bits between the
  previous window's leading and trailing zeros (allowed from the third sample on, when the
  XOR fits that window), or `1`, 5 bits of leading zeros (at most 31), 6 bits of the count of
  significant bits (64 written as 0), and those bits.

Decoding asks first whether the count of samples can fit at all, one bit each, and fails on a
varint longer than ten bytes and on a value window wider than 64 bits.
-/

namespace FrameCache

/-- One sample: a signed 64-bit time and the bit pattern of a double. -/
structure Sample where
  time : Int64
  value : UInt64
  deriving DecidableEq, Repr, Inhabited

namespace Gorilla

/-- The zigzag code of a signed 64-bit number: non-negative numbers to even codes, negative
ones to odd codes. -/
def zigzag (v : Int64) : UInt64 :=
  let i := v.toInt
  (if i ≥ 0 then 2 * i else -2 * i - 1).toNat.toUInt64

/-- The signed number of a zigzag code. -/
def unzigzag (z : UInt64) : Int64 :=
  let n := z.toNat
  Int64.ofInt (if n % 2 = 0 then (n / 2 : Int) else -((n + 1) / 2 : Int))

/-- Writes a varint: seven bits at a time, lowest first, with the high bit of each byte set
while more follow. -/
def writeVarint (w : BitWriter) (v : Int64) : BitWriter :=
  let rec go (w : BitWriter) (z : Nat) (fuel : Nat) : BitWriter :=
    match fuel with
    | 0 => w.writeByte z.toUInt8
    | fuel + 1 =>
      if z ≥ 128 then go (w.writeByte (z % 128 + 128).toUInt8) (z / 128) fuel
      else w.writeByte z.toUInt8
  go w (zigzag v).toNat 10

/-- The number of leading zero bits of a 64-bit word. -/
def leadingZeros (x : UInt64) : Nat := if x = 0 then 64 else 63 - Nat.log2 x.toNat

/-- The number of trailing zero bits of a 64-bit word. -/
def trailingZeros (x : UInt64) : Nat :=
  ((List.range 64).find? fun i => (x >>> i.toUInt64) &&& 1 == 1).getD 64

end Gorilla

/-- The state of a compressor between samples. -/
structure GorillaEncoder where
  out : BitWriter := {}
  count : Nat := 0
  time : Int64 := 0
  delta : Int64 := 0
  value : UInt64 := 0
  leading : Nat := 0
  trailing : Nat := 0
  deriving Inhabited

namespace GorillaEncoder

/-- Writes the change of a value: nothing new, the previous window, or a new window. -/
def writeValue (e : GorillaEncoder) (v : UInt64) : GorillaEncoder :=
  let x := v ^^^ e.value
  if x = 0 then { e with out := e.out.writeBit false }
  else
    let out := e.out.writeBit true
    let leading := min (Gorilla.leadingZeros x) 31
    let trailing := Gorilla.trailingZeros x
    if e.count > 1 && leading ≥ e.leading && trailing ≥ e.trailing then
      let significant := 64 - e.leading - e.trailing
      { e with out := (out.writeBit false).writeBits (x >>> e.trailing.toUInt64) significant }
    else
      let significant := 64 - leading - trailing
      let out := (out.writeBit true).writeBits leading.toUInt64 5
      let out := out.writeBits (significant % 64).toUInt64 6
      { e with out := out.writeBits (x >>> trailing.toUInt64) significant, leading, trailing }

/-- Writes a change of the time difference with the shortest prefix that holds it. -/
def writeDeltaOfDelta (w : BitWriter) (d : Int64) : BitWriter :=
  let i := d.toInt
  let bits := d.toUInt64
  if i = 0 then w.writeBit false
  else if -63 ≤ i ∧ i ≤ 64 then (w.writeBits 2 2).writeBits bits 7
  else if -255 ≤ i ∧ i ≤ 256 then (w.writeBits 6 3).writeBits bits 9
  else if -2047 ≤ i ∧ i ≤ 2048 then (w.writeBits 14 4).writeBits bits 12
  else (w.writeBits 15 4).writeBits bits 64

/-- Appends one sample. -/
def push (e : GorillaEncoder) (s : Sample) : GorillaEncoder :=
  let e :=
    match e.count with
    | 0 => { e with out := (Gorilla.writeVarint e.out s.time).writeBits s.value 64 }
    | 1 =>
      let d := s.time - e.time
      { (({ e with out := Gorilla.writeVarint e.out d } : GorillaEncoder).writeValue s.value) with
        delta := d }
    | _ =>
      let d := s.time - e.time
      let e' : GorillaEncoder := { e with out := writeDeltaOfDelta e.out (d - e.delta) }
      { e'.writeValue s.value with delta := d }
  { e with time := s.time, value := s.value, count := e.count + 1 }

end GorillaEncoder

namespace Gorilla

/-- The compressed bytes of a list of samples. -/
def encode (samples : List Sample) : Array UInt8 :=
  (samples.foldl GorillaEncoder.push {}).out.bytes

end Gorilla

/-- Why a compressed stream could not be read. -/
inductive SampleError where
  /-- The bit stream ended or was asked for too much. -/
  | stream (e : BitsError)
  /-- More samples were asked for than there are bits. -/
  | tooMany (count bits : Nat)
  /-- A varint ran past ten bytes. -/
  | varintTooLong
  /-- A value window claims more than 64 bits. -/
  | badValueHeader (leading significant : Nat)
  deriving DecidableEq, Repr

/-- The state of a decompressor between samples. -/
structure GorillaDecoder where
  reader : BitReader
  count : Nat := 0
  time : Int64 := 0
  delta : Int64 := 0
  value : UInt64 := 0
  leading : Nat := 0
  trailing : Nat := 0

namespace GorillaDecoder

/-- Lifts a failed read. -/
def lift {α} : Except BitsError α → Except SampleError α
  | .ok a => .ok a
  | .error e => .error (.stream e)

/-- Reads a varint; the eleventh byte is read before the length is refused. -/
def readVarint (r : BitReader) : Except SampleError (Int64 × BitReader) := do
  let rec go (r : BitReader) (acc : Nat) (shift : Nat) (fuel : Nat) :
      Except SampleError (Nat × BitReader) := do
    match fuel with
    | 0 => throw .varintTooLong
    | fuel + 1 =>
      let (b, r) ← lift (r.readBits 8)
      if shift ≥ 64 then throw .varintTooLong
      let acc := (acc ||| ((b.toNat % 128) <<< shift)) % Nat.pow 2 64
      if b.toNat < 128 then return (acc, r) else go r acc (shift + 7) fuel
  let (z, r) ← go r 0 0 11
  return (Gorilla.unzigzag z.toUInt64, r)

/-- Reads `n` bits as a two's complement number, where patterns above `2^(n-1)` are
negative. -/
def readSigned (r : BitReader) (n : Nat) : Except SampleError (Int64 × BitReader) := do
  let (b, r) ← lift (r.readBits n)
  let v : Int := if b.toNat > Nat.pow 2 (n - 1) then (b.toNat : Int) - (Nat.pow 2 n : Nat) else b.toNat
  return (Int64.ofInt v, r)

/-- Reads the change of a value and applies it. -/
def readValue (d : GorillaDecoder) : Except SampleError GorillaDecoder := do
  let (changed, r) ← lift d.reader.readBit
  if !changed then return { d with reader := r }
  let (fresh, r) ← lift r.readBit
  let (d, r) ←
    if fresh then do
      let (leading, r) ← lift (r.readBits 5)
      let (sig, r) ← lift (r.readBits 6)
      let significant := if sig.toNat = 0 then 64 else sig.toNat
      if leading.toNat + significant > 64 then throw (.badValueHeader leading.toNat significant)
      pure ({ d with leading := leading.toNat, trailing := 64 - leading.toNat - significant }, r)
    else pure (d, r)
  let significant := 64 - d.leading - d.trailing
  let (bits, r) ← lift (r.readBits significant)
  return { d with reader := r, value := d.value ^^^ (bits <<< d.trailing.toUInt64) }

/-- Reads the prefix of a change of the time difference: up to four bits, stopping at the
first zero. -/
def readPrefix (r : BitReader) : Except SampleError (Nat × BitReader) := do
  let rec go (r : BitReader) (acc : Nat) (fuel : Nat) : Except SampleError (Nat × BitReader) := do
    match fuel with
    | 0 => return (acc, r)
    | fuel + 1 =>
      let (b, r) ← lift r.readBit
      if b then go r (2 * acc + 1) fuel else return (2 * acc, r)
  go r 0 4

/-- Reads a change of the time difference: the prefix, then as many bits as it calls for. -/
def readDeltaOfDelta (r : BitReader) : Except SampleError (Int64 × BitReader) := do
  let (p, r) ← readPrefix r
  match p with
  | 2 => readSigned r 7
  | 6 => readSigned r 9
  | 14 => readSigned r 12
  | 15 => do let (b, r) ← lift (r.readBits 64); pure (b.toInt64, r)
  | _ => pure (0, r)

/-- Reads one sample. -/
def next (d : GorillaDecoder) : Except SampleError (Sample × GorillaDecoder) := do
  let d ← match d.count with
    | 0 => do
      let (t, r) ← readVarint d.reader
      let (v, r) ← lift (r.readBits 64)
      pure { d with reader := r, time := t, value := v }
    | 1 => do
      let (delta, r) ← readVarint d.reader
      readValue { d with reader := r, delta, time := d.time + delta }
    | _ => do
      let (dod, r) ← readDeltaOfDelta d.reader
      let delta := d.delta + dod
      readValue { d with reader := r, delta, time := d.time + delta }
  return (⟨d.time, d.value⟩, { d with count := d.count + 1 })

end GorillaDecoder

namespace Gorilla

/-- Reads `n` samples from compressed bytes. -/
def decode (data : Array UInt8) (n : Nat) : Except SampleError (List Sample) := do
  let r := BitReader.ofBytes data
  if n > r.remaining then throw (.tooMany n r.remaining)
  let rec go (d : GorillaDecoder) (k : Nat) (acc : Array Sample) : Except SampleError (List Sample) :=
    match k with
    | 0 => .ok acc.toList
    | k + 1 => do
      let (s, d) ← d.next
      go d k (acc.push s)
  go { reader := r } n #[]

end Gorilla

end FrameCache
