import Mathlib
import FrameCache.Proofs.JsonRecord
import FrameCache.Proofs.LenientTime
import FrameCache.Partition.Header

/-!
# Reading a stored header back

The stored header is the compact JSON of `PartitionHeader.toJson`, and `PartitionHeader.read`
reads it with one typed reader per member. Each reader reads its member back
(`readSection_reads`, `readColumn_reads`, `readTimestamp_reads`, `readCreated_reads`), so the
whole header is read back (`read_toBytes`) as long as its numbers fit the types they are read
as (`PartitionHeader.Fits`). Its first and last timestamps come back as the lenient reader makes
them of their RFC 3339 form, which rounds the offset to the minute. A header whose first or last
timestamp the lenient reader refuses is not read at all (`read_toBytes_fails`), so whether a
header is read, and what it is read as, depends on nothing but those two timestamps
(`read_toBytes_eq_ok_iff`).
-/

namespace FrameCache

open Json JsonReader

namespace CreatedAt

/-- A time the system clock can give: its seconds in the signed 64-bit range of the clock, its
nanoseconds below a second. -/
def Valid (t : CreatedAt) : Prop := t.seconds < 2 ^ 63 ∧ t.nanos < 1000000000

instance (t : CreatedAt) : Decidable t.Valid := inferInstanceAs (Decidable (_ ∧ _))

end CreatedAt

namespace PartitionHeader

theorem u64Max_le : u64Max ≤ JsonReader.u64Max := by decide

/-- A section whose offset and size fit in 64 bits is read back. -/
theorem readSection_reads {s : Section} (ho : s.offset ≤ u64Max) (hs : s.size ≤ u64Max) :
    Reads readSection (sectionJson s) s := by
  refine @readRecord_reads _ _ _ _ [s.offset, s.size] _ ?_ ?_
  · exact {
      names := rfl
      nodup := by decide
      length := rfl
      reads := fun i hm ha => by
        simp only [List.length_cons, List.length_nil] at hm
        interval_cases i
        · exact readNat_reads ho u64Max_le
        · exact readNat_reads hs u64Max_le }
  · rfl

/-- The JSON of a column entry. -/
def columnJson (c : ColumnEntry) : Json :=
  .obj [("name", .str c.name), ("kind", .str c.kind.name), ("section", sectionJson c.extent)]

theorem readColumn_reads {c : ColumnEntry} (ho : c.extent.offset ≤ u64Max)
    (hs : c.extent.size ≤ u64Max) : Reads readColumn (columnJson c) c := by
  refine @readRecord_reads _ _ _ _ [.name c.name, .kind c.kind, .extent c.extent] _ ?_ ?_
  · exact {
      names := rfl
      nodup := by decide
      length := rfl
      reads := fun i hm ha => by
        simp only [List.length_cons, List.length_nil] at hm
        interval_cases i
        · exact (readString_reads c.name).map ColumnPart.name
        · cases hk : c.kind with
          | float => exact (readVariant_reads (i := 0) (by decide)).map _
          | text => exact (readVariant_reads (i := 1) (by decide)).map _
        · exact (readSection_reads ho hs).map ColumnPart.extent }
  · rfl

/-- A timestamp in its RFC 3339 form with `Z` is read as the timestamp the lenient reader
makes of it. -/
theorem readTimestamp_reads {t t' : Timestamp} (h : Timestamp.parseLenient (t.rfc3339With true) = .ok t') :
    Reads readTimestamp (.str (t.rfc3339With true)) t' :=
  readStringWith_reads (by simp only [h])

/-- A timestamp whose written form the lenient reader refuses is not read. -/
theorem readTimestamp_fails {t : Timestamp} {err : TimeParseError}
    (h : Timestamp.parseLenient (t.rfc3339With true) = .error err) :
    Fails readTimestamp (.str (t.rfc3339With true)) :=
  readStringWith_fails (e := custom err.message) (by simp only [h])

/-- The JSON of a creation time. -/
def createdJson (c : CreatedAt) : Json :=
  .obj [("secs_since_epoch", .num (.int c.seconds)), ("nanos_since_epoch", .num (.int c.nanos))]

/-- A creation time whose seconds fit in 64 bits, whose nanoseconds fit in 32 bits and whose
sum in seconds stays in the signed range of the clock is read back. -/
theorem readCreated_reads {c : CreatedAt} (hs : c.seconds ≤ u64Max) (hn : c.nanos ≤ 4294967295)
    (hsum : c.seconds + c.nanos / 1000000000 ≤ 9223372036854775807) :
    Reads readCreated (createdJson c) c := by
  have hbuild : c.seconds + c.nanos / 1000000000 ≤ u64Max := by unfold u64Max; omega
  apply Reads.bind_ok (a := c)
  · refine @readRecord_reads _ _ _ _ [c.seconds, c.nanos] _ ?_ ?_
    · exact {
        names := rfl
        nodup := by decide
        length := rfl
        reads := fun i hm ha => by
          simp only [List.length_cons, List.length_nil] at hm
          interval_cases i
          · exact readNat_reads hs u64Max_le
          · exact readNat_reads hn (by decide) }
    · show (if c.seconds + c.nanos / 1000000000 > u64Max then _ else _) = _
      rw [if_neg (Nat.not_lt.mpr hbuild)]
  · intro cur
    rw [if_neg (Nat.not_lt.mpr hsum)]
    rfl

/-- What the stored header needs to be read back: every count, offset and size fits in 64
bits, and the creation time fits the clock. -/
structure Fits (h : PartitionHeader) : Prop where
  rows_le : h.rows ≤ u64Max
  index_offset_le : h.index.offset ≤ u64Max
  index_size_le : h.index.size ≤ u64Max
  columns_le : ∀ c ∈ h.columns, c.extent.offset ≤ u64Max ∧ c.extent.size ≤ u64Max
  seconds_le : h.created.seconds ≤ u64Max
  nanos_le : h.created.nanos ≤ 4294967295
  created_le : h.created.seconds + h.created.nanos / 1000000000 ≤ 9223372036854775807

theorem toJson_eq (h : PartitionHeader) : h.toJson =
    .obj [("start", .str (h.start.rfc3339With true)), ("end", .str (h.stop.rfc3339With true)),
      ("num_rows", .num (.int h.rows)), ("index_name", .str h.indexName),
      ("index", sectionJson h.index), ("columns", .arr (h.columns.map columnJson)),
      ("created_at", createdJson h.created)] := rfl

/-- The stored header is read back, its first and last timestamps as the lenient reader
makes them of their written form. -/
theorem read_toBytes {h : PartitionHeader} (hf : h.Fits) {s e : Timestamp}
    (hs : Timestamp.parseLenient (h.start.rfc3339With true) = .ok s)
    (he : Timestamp.parseLenient (h.stop.rfc3339With true) = .ok e) :
    read h.toBytes = .ok { h with start := s, stop := e } := by
  have hcols : Reads (readList readColumn) (.arr (h.columns.map columnJson)) h.columns :=
    readList_reads h.columns (fun c hc => readColumn_reads (hf.columns_le c hc).1 (hf.columns_le c hc).2)
      (fun c _ => opens_obj _)
  apply readWhole_reads (j := h.toJson)
  · rw [toJson_eq]
    refine @readRecord_reads _ _ _ _ [.time s, .time e, .count h.rows, .text h.indexName,
      .extent h.index, .columns h.columns, .created h.created] _ ?_ ?_
    · exact {
        names := rfl
        nodup := by decide
        length := rfl
        reads := fun i hm ha => by
          simp only [List.length_cons, List.length_nil] at hm
          interval_cases i
          · exact (readTimestamp_reads hs).map HeaderPart.time
          · exact (readTimestamp_reads he).map HeaderPart.time
          · exact (readNat_reads hf.rows_le u64Max_le).map HeaderPart.count
          · exact (readString_reads h.indexName).map HeaderPart.text
          · exact (readSection_reads hf.index_offset_le hf.index_size_le).map HeaderPart.extent
          · exact hcols.map HeaderPart.columns
          · exact (readCreated_reads hf.seconds_le hf.nanos_le hf.created_le).map HeaderPart.created }
    · rfl
  · rfl

/-- A stored header whose first timestamp, or whose last one after a first that reads, the
lenient reader refuses is not read, whatever its other members hold. -/
theorem read_toBytes_fails {h : PartitionHeader}
    (hfail : (∃ err, Timestamp.parseLenient (h.start.rfc3339With true) = .error err) ∨
      ∃ s err, Timestamp.parseLenient (h.start.rfc3339With true) = .ok s ∧
        Timestamp.parseLenient (h.stop.rfc3339With true) = .error err) :
    ∃ err, read h.toBytes = .error err := by
  apply readWhole_fails (j := h.toJson) _ rfl
  rw [toJson_eq]
  rcases hfail with ⟨err, hs⟩ | ⟨s, err, hs, he⟩
  · -- the first member fails
    exact @readRecord_fails _ _ _ _ [] 0 {
      names := rfl
      nodup := by decide
      length := rfl
      lt := by simp
      reads := fun i _ ha => absurd ha (Nat.not_lt_zero i)
      fails := fun _ => (readTimestamp_fails hs).map HeaderPart.time }
  · -- the first member reads and the second fails
    exact @readRecord_fails _ _ _ _ [.time s] 1 {
      names := rfl
      nodup := by decide
      length := rfl
      lt := by simp
      reads := fun i _ ha => by
        obtain rfl : i = 0 := by simpa using ha
        exact (readTimestamp_reads hs).map HeaderPart.time
      fails := fun _ => (readTimestamp_fails he).map HeaderPart.time }

/-- A stored header whose numbers fit is read exactly when the lenient reader reads the written
forms of its first and last timestamps, and it is then the header with those timestamps. -/
theorem read_toBytes_eq_ok_iff {h h' : PartitionHeader} (hf : h.Fits) :
    read h.toBytes = .ok h' ↔ ∃ s e, Timestamp.parseLenient (h.start.rfc3339With true) = .ok s ∧
      Timestamp.parseLenient (h.stop.rfc3339With true) = .ok e ∧ h' = { h with start := s, stop := e } := by
  constructor
  · intro hread
    cases hs : Timestamp.parseLenient (h.start.rfc3339With true) with
    | error err =>
      obtain ⟨_, hfail⟩ := read_toBytes_fails (.inl ⟨err, hs⟩)
      rw [hread] at hfail
      cases hfail
    | ok s =>
      cases he : Timestamp.parseLenient (h.stop.rfc3339With true) with
      | error err =>
        obtain ⟨_, hfail⟩ := read_toBytes_fails (.inr ⟨s, err, hs, he⟩)
        rw [hread] at hfail
        cases hfail
      | ok e =>
        rw [read_toBytes hf hs he, Except.ok.injEq] at hread
        exact ⟨s, e, rfl, rfl, hread.symm⟩
  · rintro ⟨s, e, hs, he, rfl⟩
    exact read_toBytes hf hs he

end PartitionHeader

end FrameCache
