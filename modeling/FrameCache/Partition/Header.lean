import FrameCache.Json.Typed
import FrameCache.Frame.Basic
import FrameCache.Time.Parse

/-!
# Partition headers

The header of a partition file describes its body: the first and last timestamps, the
number of rows, the index name, where the index section lies, each column with its name,
kind and section, and when the file was made. It is stored as JSON, with the members in
that order; the timestamps are written in RFC 3339 form with `Z` for the zero offset.

`PartitionHeader.read` reads the stored JSON back and reports the first problem with its
line and column: text that is not JSON, a member of the wrong type, a number out of range,
a missing or repeated member, an unknown column kind or an unreadable timestamp.
-/

namespace FrameCache

/-- Where a section lies in the body: its first byte and its length. -/
structure Section where
  offset : Nat
  size : Nat
  deriving DecidableEq, Repr, Inhabited

/-- One column of a partition: its name, kind and the extent of its section. -/
structure ColumnEntry where
  name : String
  kind : ColumnKind
  extent : Section
  deriving DecidableEq, Repr

/-- A moment as whole seconds and nanoseconds since the epoch. -/
structure CreatedAt where
  seconds : Nat
  nanos : Nat
  deriving DecidableEq, Repr, Inhabited

/-- The description of a partition file's body. -/
structure PartitionHeader where
  start : Timestamp
  stop : Timestamp
  rows : Nat
  indexName : String
  index : Section
  columns : List ColumnEntry
  created : CreatedAt

namespace PartitionHeader

/-- A section as JSON. -/
def sectionJson (s : Section) : Json :=
  .obj [("offset", .num (.int s.offset)), ("encoded_size", .num (.int s.size))]

/-- The header as JSON, members in their stored order. -/
def toJson (h : PartitionHeader) : Json :=
  .obj [("start", .str (h.start.rfc3339With true)), ("end", .str (h.stop.rfc3339With true)),
    ("num_rows", .num (.int h.rows)), ("index_name", .str h.indexName),
    ("index", sectionJson h.index),
    ("columns", .arr (h.columns.map fun c =>
      .obj [("name", .str c.name), ("kind", .str c.kind.name), ("section", sectionJson c.extent)])),
    ("created_at", .obj [("secs_since_epoch", .num (.int h.created.seconds)),
      ("nanos_since_epoch", .num (.int h.created.nanos))])]

/-- The stored bytes of the header. -/
def toBytes (h : PartitionHeader) : ByteArray := h.toJson.compact.toUTF8

open JsonReader

/-- The largest 64-bit and 32-bit values. -/
def u64Max : Nat := 18446744073709551615

/-- Reads a section. -/
def readSection : JsonReader Section :=
  readRecord {
    expecting := "struct Section", lengthExpecting := "struct Section with 2 elements",
    fields := ["offset", "encoded_size"], field := fun _ => readNat "u64" u64Max,
    build := fun
      | [o, s] => .ok ⟨o, s⟩
      | _ => .error (custom "struct Section") }

/-- A field of a column entry. -/
inductive ColumnPart where
  | name (s : String)
  | kind (k : ColumnKind)
  | extent (s : Section)

/-- Reads a column entry. -/
def readColumn : JsonReader ColumnEntry :=
  readRecord {
    expecting := "struct ChunkColumn", lengthExpecting := "struct ChunkColumn with 3 elements",
    fields := ["name", "kind", "section"],
    field := fun
      | 0 => ColumnPart.name <$> readString
      | 1 => (fun i => ColumnPart.kind (if i = 0 then .float else .text)) <$>
          readVariant "ColumnKind" ["Float", "Text"]
      | _ => ColumnPart.extent <$> readSection,
    build := fun
      | [.name n, .kind k, .extent s] => .ok ⟨n, k, s⟩
      | _ => .error (custom "struct ChunkColumn") }

/-- Reads a timestamp written as a string. -/
def readTimestamp : JsonReader Timestamp :=
  readStringWith "an RFC 3339 formatted date and time string" fun s =>
    match Timestamp.parseLenient s with
    | .ok t => .ok t
    | .error e => .error (custom e.message)

/-- Reads the creation time: seconds and nanoseconds, whose sum in seconds must fit in 64
bits and then in the signed range of the clock. -/
def readCreated : JsonReader CreatedAt := do
  let c ← readRecord {
    expecting := "struct SystemTime", lengthExpecting := "struct SystemTime",
    fields := ["secs_since_epoch", "nanos_since_epoch"], denyUnknown := true,
    field := fun
      | 0 => readNat "u64" u64Max
      | _ => readNat "u32" 4294967295,
    build := fun
      | [s, n] =>
        if s + n / 1000000000 > u64Max then
          .error (custom "overflow deserializing SystemTime epoch offset")
        else .ok (⟨s, n⟩ : CreatedAt)
      | _ => .error (custom "struct SystemTime") }
  if c.seconds + c.nanos / 1000000000 > 9223372036854775807 then
    throw (custom "overflow deserializing SystemTime")
  return c

/-- A field of a header. -/
inductive HeaderPart where
  | time (t : Timestamp)
  | count (n : Nat)
  | text (s : String)
  | extent (s : Section)
  | columns (cs : List ColumnEntry)
  | created (c : CreatedAt)

/-- Reads a header from its stored bytes. -/
def read (bytes : ByteArray) : Except JsonError PartitionHeader :=
  readWhole (readRecord {
    expecting := "struct ChunkMeta", lengthExpecting := "struct ChunkMeta with 7 elements",
    fields := ["start", "end", "num_rows", "index_name", "index", "columns", "created_at"],
    field := fun
      | 0 | 1 => HeaderPart.time <$> readTimestamp
      | 2 => HeaderPart.count <$> readNat "usize" u64Max
      | 3 => HeaderPart.text <$> readString
      | 4 => HeaderPart.extent <$> readSection
      | 5 => HeaderPart.columns <$> readList readColumn
      | _ => HeaderPart.created <$> readCreated,
    build := fun
      | [.time s, .time e, .count n, .text name, .extent i, .columns cs, .created c] =>
        .ok ⟨s, e, n, name, i, cs, c⟩
      | _ => .error (custom "struct ChunkMeta") }) bytes

end PartitionHeader

end FrameCache
