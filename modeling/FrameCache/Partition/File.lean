import FrameCache.Partition.Header
import FrameCache.Partition.TextList
import FrameCache.Codec.Gorilla
import FrameCache.Decimal.Read

/-!
# Partition files

A partition file holds one non-empty frame. It starts with the magic bytes `DFCH`, the
version byte 1 and the length of the header as a 32-bit little-endian number; the header
(see `PartitionHeader`) follows, and then the body. The body is a row of sections: the index,
then each column in order. The index section compresses the samples (nanoseconds since the
epoch, offset in seconds as a double); a float column compresses the samples (nanoseconds,
value); a text column is a stored text list.

Decoding checks, in this order: the magic, the version, that the header fits, the header
itself, that the index section lies in the body, the index samples, that each offset is
strictly within a day, and then for each column that its section lies in the body, its
samples or texts, and that a float column's times are the index's; last, that the columns
make a frame with the index.
-/

namespace FrameCache

/-- Why a frame cannot be written as a partition file. -/
inductive WriteError where
  /-- The frame has no rows. -/
  | emptyFrame
  /-- A timestamp has no signed 64-bit nanosecond count. -/
  | timestampOutOfRange (t : Timestamp)

/-- Damage found in the bytes of a partition file. -/
inductive Corruption where
  | missingMagic
  | unsupportedVersion (version : Nat)
  | headerTooLong (headerLength fileSize : Nat)
  | sectionOutOfBody (what : String) (start stop bodySize : Nat)
  | tooManySamples (count bits : Nat)
  | varintTooLong
  | badValueHeader (leading significant : Nat)
  | badUtcOffset (value : Double)
  | misaligned (column : String)
  | inconsistent (e : FrameError)

namespace Corruption

/-- The text of the damage. -/
def message : Corruption → String
  | .missingMagic => "missing partition file magic"
  | .unsupportedVersion v => "unsupported partition file version " ++ toString v
  | .headerTooLong h n => "header length " ++ toString h ++ " exceeds file size " ++ toString n
  | .sectionOutOfBody w s e n =>
    w ++ " section [" ++ toString s ++ ", " ++ toString e ++ ") exceeds body of " ++ toString n ++ " bytes"
  | .tooManySamples n b => toString n ++ " samples cannot fit in " ++ toString b ++ " bits"
  | .varintTooLong => "varint exceeds 64 bits"
  | .badValueHeader l s =>
    "invalid value header: " ++ toString l ++ " leading, " ++ toString s ++ " significant bits"
  | .badUtcOffset v => "invalid utc offset " ++ v.plainText
  | .misaligned c => "column '" ++ c ++ "' is not aligned with the index"
  | .inconsistent e => "inconsistent partition contents: " ++ e.message

end Corruption

/-- Why the bytes of a partition file could not be read. -/
inductive ReadError where
  | corrupt (c : Corruption)
  | json (e : JsonError)
  | textList (e : TextListError)
  | stream (e : BitsError)

namespace PartitionCodec

/-- The magic bytes `DFCH`. -/
def magic : List UInt8 := [0x44, 0x46, 0x43, 0x48]

/-- The version of the format. -/
def version : UInt8 := 1

/-- The length of magic, version and header length. -/
def preambleLength : Nat := 9

/-- The four little-endian bytes of a number below 2³². -/
def u32Bytes (n : Nat) : List UInt8 := (List.range 4).map fun i => (n >>> (8 * i)).toUInt8

/-- The number of four little-endian bytes. -/
def u32Of (bs : List UInt8) : Nat := (bs.take 4).foldr (fun b acc => acc * 256 + b.toNat) 0

/-- The double of a whole number of seconds. -/
def offsetValue (o : Offset) : Double := Decimal.toDouble (o.seconds < 0) o.seconds.natAbs 0

/-- The nanosecond counts of the index, or the first timestamp that has none. -/
def indexNanos (f : Frame) : Except WriteError (List Int64) :=
  f.index.toList.mapM fun t =>
    match t.toNanos? with
    | some n => .ok (Int64.ofInt n)
    | none => .error (.timestampOutOfRange t)

/-- The sections of the body from their bytes, one after another. -/
def layout (parts : List (Array UInt8)) : List Section :=
  (parts.foldl (fun (acc : List Section × Nat) p => (acc.1 ++ [⟨acc.2, p.size⟩], acc.2 + p.size))
    ([], 0)).1

/-- The compressed index: each nanosecond count with its offset in seconds as a double. -/
def indexBytes (nanos : List Int64) (index : Array Timestamp) : Array UInt8 :=
  Gorilla.encode ((nanos.zip index.toList).map fun (n, t) => ⟨n, (offsetValue t.offset).bits⟩)

/-- The bytes of a column: its compressed samples, or its stored texts. -/
def columnBytes (nanos : List Int64) : Column → Array UInt8
  | .float vs => Gorilla.encode ((nanos.zip vs.toList).map fun (n, v) => ⟨n, v.bits⟩)
  | .text vs => TextList.encode vs.toList

/-- The header of a frame from its first and last timestamps and the sections of its body,
the index's first. -/
def headerOf (f : Frame) (first last : Timestamp) (sections : List Section) (created : CreatedAt) :
    PartitionHeader :=
  { start := first, stop := last, rows := f.size, indexName := f.indexName,
    index := sections.headD default,
    columns := (f.columns.zip sections.tail).map fun ((n, c), s) => ⟨n, c.kind, s⟩,
    created }

/-- The bytes of a file: the preamble, the header and the sections of the body in order. -/
def assemble (header : PartitionHeader) (parts : List (Array UInt8)) : ByteArray :=
  let hb := header.toBytes
  ByteArray.mk ((magic ++ [version] ++ u32Bytes hb.size).toArray ++ hb.data ++ parts.foldl (· ++ ·) #[])

/-- The bytes of a partition file holding a non-empty frame, made at `created`. -/
def encode (f : Frame) (created : CreatedAt) : Except WriteError ByteArray := do
  let (some first, some last) := (f.first?, f.last?) | throw .emptyFrame
  let nanos ← indexNanos f
  let parts := indexBytes nanos f.index :: f.columns.map fun (_, c) => columnBytes nanos c
  return assemble (headerOf f first last (layout parts) created) parts

/-- Splits the bytes of a file into header and body, checking magic, version and header
length, and reads the header. -/
def split (bytes : ByteArray) : Except ReadError (PartitionHeader × Array UInt8) := do
  let bs := bytes.data
  if bs.size < preambleLength || bs.toList.take 4 != magic then throw (.corrupt .missingMagic)
  let v := bs.getD 4 0
  if v != version then throw (.corrupt (.unsupportedVersion v.toNat))
  let hl := u32Of (bs.toList.drop 5)
  if preambleLength + hl > bs.size then throw (.corrupt (.headerTooLong hl bs.size))
  match PartitionHeader.read (ByteArray.mk (bs.extract preambleLength (preambleLength + hl))) with
  | .ok h => return (h, bs.extract (preambleLength + hl) bs.size)
  | .error e => throw (.json e)

/-- The largest 64-bit value. -/
def u64Max : Nat := 18446744073709551615

/-- The bytes of a section, which must lie inside the body. -/
def slice (body : Array UInt8) (s : Section) (what : String) : Except ReadError (Array UInt8) :=
  let stop := min (s.offset + s.size) u64Max
  if stop > body.size then throw (.corrupt (.sectionOutOfBody what s.offset stop body.size))
  else .ok (body.extract s.offset stop)

/-- Reads compressed samples. -/
def samples (data : Array UInt8) (n : Nat) : Except ReadError (List Sample) :=
  match Gorilla.decode data n with
  | .ok ss => .ok ss
  | .error (.stream e) => .error (.stream e)
  | .error (.tooMany c b) => .error (.corrupt (.tooManySamples c b))
  | .error .varintTooLong => .error (.corrupt .varintTooLong)
  | .error (.badValueHeader l s) => .error (.corrupt (.badValueHeader l s))

/-- The timestamp of an index sample. -/
def timestampOf (s : Sample) : Except ReadError Timestamp :=
  let v : Double := ⟨s.value⟩
  match Offset.ofSeconds? v.toInt32Saturating with
  | some o =>
    .ok (Timestamp.ofNanos s.time.toInt (fitsInt64_toInt s.time) o)
  | none => .error (.corrupt (.badUtcOffset v))

/-- Reads the column a header entry describes; a float column's times must be the index's. -/
def readColumn (body : Array UInt8) (rows : Nat) (indexSamples : List Sample) (c : ColumnEntry) :
    Except ReadError (String × Column) := do
  let data ← slice body c.extent c.name
  match c.kind with
  | .float =>
    let ss ← samples data rows
    if (ss.zip indexSamples).any fun (a, b) => a.time != b.time then
      throw (.corrupt (.misaligned c.name))
    pure (c.name, Column.float (ss.map fun s => (⟨s.value⟩ : Double)).toArray)
  | .text =>
    match TextList.decode data with
    | .ok xs => pure (c.name, Column.text xs.toArray)
    | .error e => throw (.textList e)

/-- Decodes the bytes of a partition file into its header and frame. -/
def decode (bytes : ByteArray) : Except ReadError (PartitionHeader × Frame) := do
  let (h, body) ← split bytes
  let indexSamples ← samples (← slice body h.index "index") h.rows
  let index ← indexSamples.mapM timestampOf
  let columns ← h.columns.mapM (readColumn body h.rows indexSamples)
  match Frame.ofParts h.indexName index.toArray columns with
  | .ok f => return (h, f)
  | .error e => throw (.corrupt (.inconsistent e))

/-- Why only the header of a stored file could not be read. -/
inductive HeaderError where
  /-- The file is shorter than the preamble. -/
  | shortPreamble
  | read (e : ReadError)

/-- Reads only the header of a file: the header length is checked against the file size
before the magic and the version. -/
def readHeader (bytes : ByteArray) : Except HeaderError PartitionHeader := do
  let bs := bytes.data
  if bs.size < preambleLength then throw .shortPreamble
  let hl := u32Of (bs.toList.drop 5)
  if preambleLength + hl > bs.size then throw (.read (.corrupt (.headerTooLong hl bs.size)))
  match split (ByteArray.mk (bs.extract 0 (preambleLength + hl))) with
  | .ok (h, _) => return h
  | .error e => throw (.read e)

end PartitionCodec

end FrameCache
