/-!
# Bit streams

A `BitWriter` appends bits to a byte array, most significant bit first; the last byte is
padded with zeros until it is full. A `BitReader` reads them back in the same order from a
byte array and a bit position.

Writing a byte or `n` bits of a number writes those bits one after another, highest first,
so the bytes are always the written bits followed by zero padding. A read of `n` bits takes
the next `n` bits as a number, highest first; it fails, and moves nothing, when fewer than
`n` bits are left or when `n` exceeds 64.
-/

namespace FrameCache

/-- Bits appended to bytes, most significant first; `free` low bits of the last byte are not
written yet. -/
structure BitWriter where
  bytes : Array UInt8 := #[]
  free : Nat := 0
  deriving Inhabited

namespace BitWriter

/-- The empty writer. -/
def empty : BitWriter := {}

/-- Appends one bit, opening a new zero byte when the last one is full. -/
def writeBit (w : BitWriter) (bit : Bool) : BitWriter :=
  let (bytes, free) := if w.free = 0 then (w.bytes.push 0, 8) else (w.bytes, w.free)
  let free := free - 1
  let bytes :=
    if bit then bytes.modify (bytes.size - 1) (· ||| ((1 : UInt8) <<< free.toUInt8)) else bytes
  { bytes, free }

/-- Appends the eight bits of a byte, highest first. When the last byte has free bits, the
byte's high bits fill them and its low bits open a new byte, which is left with as many free
bits as the last one had. -/
def writeByte (w : BitWriter) (b : UInt8) : BitWriter :=
  if w.free = 0 then { w with bytes := w.bytes.push b }
  else
    let bytes := w.bytes.modify (w.bytes.size - 1) (· ||| (b >>> (8 - w.free).toUInt8))
    { w with bytes := bytes.push (b <<< w.free.toUInt8) }

/-- The byte loop of `writeBits`: while eight or more of the `remaining` bits are left, the top
byte of `value` is written and shifted out. Gives the writer, the value and the bits left. -/
def writeWholeBytes (w : BitWriter) (value : UInt64) : Nat → BitWriter × UInt64 × Nat
  | remaining + 8 => writeWholeBytes (w.writeByte (value >>> 56).toUInt8) (value <<< 8) remaining
  | remaining => (w, value, remaining)

/-- The bit loop of `writeBits`: the top `remaining` bits of `value`, one at a time. -/
def writeSingleBits (w : BitWriter) (value : UInt64) : Nat → BitWriter
  | 0 => w
  | remaining + 1 => writeSingleBits (w.writeBit (value >>> 63 == 1)) (value <<< 1) remaining

/-- Appends the low `n` bits of `value`, highest first: they are moved to the top of the word,
then written a byte at a time while eight or more are left, and the rest a bit at a time. -/
def writeBits (w : BitWriter) (value : UInt64) (n : Nat) : BitWriter :=
  if n = 0 then w
  else
    let (w, value, remaining) := w.writeWholeBytes (value <<< (64 - n).toUInt64) n
    w.writeSingleBits value remaining

/-- The number of bytes written, the last one counted even when not full. -/
def length (w : BitWriter) : Nat := w.bytes.size

end BitWriter

/-- Why a read from a bit stream failed. -/
inductive BitsError where
  /-- Fewer bits are left than asked for. -/
  | exhausted
  /-- More than 64 bits were asked for at once. -/
  | tooWide
  deriving DecidableEq, Repr

namespace BitsError

/-- The text of a failed read. -/
def message : BitsError → String
  | .exhausted => "bit stream exhausted"
  | .tooWide => "nbits must be <= 64"

end BitsError

/-- A position, in bits, in a byte array. -/
structure BitReader where
  data : Array UInt8
  pos : Nat := 0
  deriving Inhabited

namespace BitReader

/-- A reader at the first bit of the bytes. -/
def ofBytes (data : Array UInt8) : BitReader := { data }

/-- The number of bits not yet read. -/
def remaining (r : BitReader) : Nat := r.data.size * 8 - r.pos

/-- The bit at a position, highest bit of each byte first. -/
def bitAt (data : Array UInt8) (i : Nat) : Bool :=
  match data[i / 8]? with
  | some b => (b >>> (7 - i % 8).toUInt8) &&& 1 == 1
  | none => false

/-- Reads one bit. -/
def readBit (r : BitReader) : Except BitsError (Bool × BitReader) :=
  if r.pos < r.data.size * 8 then .ok (bitAt r.data r.pos, { r with pos := r.pos + 1 })
  else .error .exhausted

/-- The byte-aligned loop of `readBits`: while eight or more of the `remaining` bits are left
and the position is on a byte boundary, the next byte is shifted into `value` whole. Gives the
value, the reader and the bits left. -/
def readWholeBytes (r : BitReader) (value : UInt64) : Nat → UInt64 × BitReader × Nat
  | remaining + 8 =>
    if r.pos % 8 = 0 then
      readWholeBytes { r with pos := r.pos + 8 }
        ((value <<< 8) ||| (r.data.getD (r.pos / 8) 0).toUInt64) remaining
    else (value, r, remaining + 8)
  | remaining => (value, r, remaining)

/-- The bit loop of `readBits`: `remaining` single bits shifted into `value`. -/
def readSingleBits (r : BitReader) (value : UInt64) : Nat → Except BitsError (UInt64 × BitReader)
  | 0 => .ok (value, r)
  | remaining + 1 => do
    let (b, r) ← r.readBit
    readSingleBits r ((value <<< 1) ||| (if b then 1 else 0)) remaining

/-- Reads `n` bits as a number, highest first: whole bytes while the position is on a byte
boundary and eight or more bits are left, then single bits. Asking for more than 64 bits, or
for more than are left, fails before anything is read. -/
def readBits (r : BitReader) (n : Nat) : Except BitsError (UInt64 × BitReader) :=
  if n > 64 then .error .tooWide
  else if r.remaining < n then .error .exhausted
  else
    let (value, r, remaining) := r.readWholeBytes 0 n
    r.readSingleBits value remaining

end BitReader

end FrameCache
