import Mathlib
import FrameCache.Proofs.DecoderBounds
import FrameCache.Proofs.PartitionHeader
import FrameCache.Proofs.TextList
import FrameCache.Proofs.WholeDouble
import FrameCache.Proofs.Gorilla
import FrameCache.Proofs.Stepping

/-!
# Partition files read back

A partition file is a preamble, the header and the body, and the body is the index section and
then one section per column, laid one after another (`sectionsFrom`). Reading a file splits off
the header where its stored length says (`split_assemble`), finds every section where the header
says it lies (`forall₂_extract_sectionsFrom`), and reads the index, the columns and the header
back from their stored forms.

The round trip is exact outside leap seconds (`decode_encode_frame`): the frame read back is the
frame written, with its index name, its timestamps, offsets included, and its columns in order,
doubles bit for bit. The header counts the rows, names the index and lists the columns with
their kinds, and its first and last timestamps are the frame's when their offsets are whole
minutes. A leap second is stored as the nanosecond count of the second after it, so no frame
read from a file has one (`index_not_leap_of_decode`, `leapSecond_folded`); and an offset that
rounds to a whole day leaves a header that cannot be read. The numbers of the format have fixed
widths: the header's length is kept in 32 bits, the rows and sections in 64 (`FileFits`), which a
file under 4 GiB meets (`fileFits_of_size`) and a larger one with a small header may.

The time a file was made is written in its header and read by nothing else, so files of one
frame made at different times are read as the same frame (`exists_decode_encode_iff`).
-/

namespace FrameCache

namespace Gorilla

open BitWriter BitReader GorillaEncoder

/-- A stream of samples is read back whole. -/
theorem decode_encode_length (ss : List Sample) : decode (encode ss) ss.length = .ok ss := by
  have he : ({} : GorillaEncoder).Valid := ⟨valid_empty, by decide⟩
  obtain ⟨-, -, hlen⟩ := valid_foldl_push ss he
  have hstart : ({ reader := BitReader.ofBytes (encode ss) } : GorillaDecoder) =
      ({} : GorillaEncoder).decoderAt (encode ss) := rfl
  have hrem : ¬ ss.length > (BitReader.ofBytes (encode ss)).remaining := by
    simp only [BitReader.remaining, BitReader.ofBytes]
    simp at hlen
    simp only [encode, BitWriter.bitLength] at *
    omega
  unfold decode
  dsimp only
  have hh : Holds (encode ss) 0 (ss.foldl push {}).out.bits := holds_bits _
  rw [if_neg hrem, hstart, decode_go_decoderAt ss he hh #[] (le_refl _), List.take_length]
  rfl

/-- The stream of a list of samples has a bit for each sample at least. -/
theorem length_le_size_encode (ss : List Sample) : ss.length ≤ (encode ss).size * 8 := by
  have he : ({} : GorillaEncoder).Valid := ⟨valid_empty, by decide⟩
  obtain ⟨-, -, hlen⟩ := valid_foldl_push ss he
  simp only [encode, BitWriter.bitLength] at *
  simp at hlen
  omega

end Gorilla

namespace PartitionCodec

/-- The four little-endian bytes of a number below 2³² are read back as it. -/
theorem u32Of_u32Bytes {n : Nat} (hn : n < 2 ^ 32) (rest : List UInt8) :
    u32Of (u32Bytes n ++ rest) = n := by
  rw [u32Of, List.take_left' (by simp [u32Bytes]), u32Bytes, List.foldr_map,
    TextList.foldr_range_digits fun i _ => TextList.toNat_toUInt8_shiftRight n i,
    Nat.mod_eq_of_lt (by omega)]

/-- Sections of the given parts laid one after another from `start`. -/
def sectionsFrom (start : Nat) : List (Array UInt8) → List Section
  | [] => []
  | p :: ps => ⟨start, p.size⟩ :: sectionsFrom (start + p.size) ps

theorem foldl_layout (parts : List (Array UInt8)) (acc : List Section) (start : Nat) :
    (parts.foldl (fun (acc : List Section × Nat) p => (acc.1 ++ [⟨acc.2, p.size⟩], acc.2 + p.size))
      (acc, start)).1 = acc ++ sectionsFrom start parts := by
  induction parts generalizing acc start with
  | nil => simp [sectionsFrom]
  | cons p ps ih => simp [ih, sectionsFrom]

/-- The body's sections lie one after another from its first byte. -/
theorem layout_eq (parts : List (Array UInt8)) : layout parts = sectionsFrom 0 parts := by
  rw [layout, foldl_layout, List.nil_append]

theorem toList_foldl_append (parts : List (Array UInt8)) (acc : Array UInt8) :
    (parts.foldl (· ++ ·) acc).toList = acc.toList ++ parts.flatMap Array.toList := by
  induction parts generalizing acc with
  | nil => simp
  | cons p ps ih => simp [ih]

/-- Every section of a body made of parts one after another lies in the body and holds its
part. -/
theorem forall₂_extract_sectionsFrom {body : Array UInt8} :
    ∀ (parts : List (Array UInt8)) (pre post : List UInt8),
      body.toList = pre ++ parts.flatMap Array.toList ++ post →
      List.Forall₂ (fun p s => s.offset + s.size ≤ body.size ∧ body.extract s.offset (s.offset + s.size) = p)
        parts (sectionsFrom pre.length parts)
  | [], _, _, _ => .nil
  | p :: ps, pre, post, h => by
    have hsize := congrArg List.length h
    simp only [Array.length_toList, List.flatMap_cons, List.length_append] at hsize
    refine .cons ⟨by simp at hsize ⊢; omega, ?_⟩ ?_
    · have h' : body.toList = pre ++ p.toList ++ (ps.flatMap Array.toList ++ post) := by
        rw [h, List.flatMap_cons, List.append_assoc, List.append_assoc, List.append_assoc]
      simpa using TextList.extract_of_toList_eq h'
    · have h' : body.toList = (pre ++ p.toList) ++ ps.flatMap Array.toList ++ post := by
        rw [h, List.flatMap_cons]
        simp
      have hlen : (pre ++ p.toList).length = pre.length + p.size := by simp
      rw [← hlen]
      exact forall₂_extract_sectionsFrom ps (pre ++ p.toList) post h'

/-- A section inside a body shorter than the largest 64-bit value is read whole. -/
theorem slice_of_le {body : Array UInt8} {s : Section} (what : String) (hs : s.offset + s.size ≤ body.size)
    (hbody : body.size < u64Max) : slice body s what = .ok (body.extract s.offset (s.offset + s.size)) := by
  have hstop : min (s.offset + s.size) u64Max = s.offset + s.size := Nat.min_eq_left (by omega)
  simp only [slice, hstop, gt_iff_lt, Nat.not_lt.2 hs, if_false]

/-- A file whose header's length fits its 32 bits splits where that length says: into the header
it was written with, as the header reader reads it, and the body. -/
theorem split_assemble {header : PartitionHeader} (parts : List (Array UInt8))
    (hsize : header.toBytes.size < 2 ^ 32) :
    split (assemble header parts) = match PartitionHeader.read header.toBytes with
      | .ok h => .ok (h, parts.foldl (· ++ ·) #[])
      | .error e => .error (.json e) := by
  unfold assemble
  generalize header.toBytes = hb at hsize ⊢
  generalize parts.foldl (· ++ ·) #[] = body
  change split ⟨(magic ++ [version] ++ u32Bytes hb.size).toArray ++ hb.data ++ body⟩ = _
  generalize hbs : (magic ++ [version] ++ u32Bytes hb.size).toArray ++ hb.data ++ body = bs
  have hu : (u32Bytes hb.size).length = 4 := by simp [u32Bytes]
  have hdata : hb.data.toList.length = hb.size := Array.length_toList
  have hpre : (magic ++ [version] ++ u32Bytes hb.size).length = preambleLength := by
    rw [List.length_append, List.length_append, hu]
    rfl
  have hlist : bs.toList = magic ++ version :: (u32Bytes hb.size ++ (hb.data.toList ++ body.toList)) := by
    rw [← hbs, Array.toList_append, Array.toList_append, List.toList_toArray]
    simp only [List.append_assoc, List.cons_append, List.nil_append]
  have hlen : bs.size = preambleLength + hb.size + body.size := by
    rw [← Array.length_toList, hlist]
    simp only [List.length_append, List.length_cons, hu, hdata, Array.length_toList]
    rw [show magic.length = 4 from rfl, show preambleLength = 9 from rfl]
    omega
  -- the preamble: magic, version and the header length
  have hmagic : bs.toList.take 4 = magic := by
    rw [hlist]
    exact List.take_left' rfl
  have hversion : bs.getD 4 0 = version := by
    rw [Array.getD_eq_getD_getElem?, ← Array.getElem?_toList, hlist,
      List.getElem?_append_right (by rfl)]
    rfl
  have hu32 : u32Of (bs.toList.drop 5) = hb.size := by
    rw [hlist, show 5 = magic.length + 1 from rfl, ← List.drop_drop, List.drop_left, List.drop_one,
      List.tail_cons]
    exact u32Of_u32Bytes hsize _
  -- the header and the body, where the preamble says they lie
  have hlist' : bs.toList = (magic ++ [version] ++ u32Bytes hb.size) ++ hb.data.toList ++ body.toList := by
    rw [hlist]
    simp only [List.append_assoc, List.cons_append, List.nil_append]
  have hheader : bs.extract preambleLength (preambleLength + hb.size) = hb.data := by
    have h := TextList.extract_of_toList_eq hlist'
    rwa [hpre, hdata, Array.toArray_toList] at h
  have hrest : bs.extract (preambleLength + hb.size) bs.size = body := by
    have hsplit : bs.toList = (magic ++ [version] ++ u32Bytes hb.size ++ hb.data.toList) ++ body.toList ++ [] := by
      rw [hlist', List.append_nil]
    have h := TextList.extract_of_toList_eq hsplit
    rwa [List.length_append, hpre, hdata, Array.length_toList, ← hlen, Array.toArray_toList] at h
  have hfirst : (decide (bs.size < preambleLength) || bs.toList.take 4 != magic) = false := by
    rw [hmagic, hlen, bne_self_eq_false, Bool.or_false, decide_eq_false_iff_not]
    omega
  have hfits : ¬ preambleLength + hb.size > bs.size := by
    rw [hlen]
    omega
  unfold split
  simp only [hfirst, Bool.false_eq_true, if_false, hversion, bne_self_eq_false, hu32, hfits, hheader,
    hrest]
  rw [show (⟨hb.data⟩ : ByteArray) = hb from rfl]
  cases PartitionHeader.read hb <;> rfl

/-! ### The index and the columns -/

/-- The stored nanosecond count of a timestamp. -/
def nanoOf (t : Timestamp) : Int64 := Int64.ofInt t.nanoCount

/-- The index sample of a timestamp: its nanosecond count and its offset as a double. -/
def sampleOf (t : Timestamp) : Sample := ⟨nanoOf t, (offsetValue t.offset).bits⟩

/-- A timestamp in the signed 64-bit nanosecond range has its count. -/
theorem toNanos?_eq_some {t : Timestamp} (h : t.toNanos?.isSome = true) :
    fitsInt64 t.nanoCount = true ∧ t.toNanos? = some t.nanoCount := by
  unfold Timestamp.toNanos? at *
  dsimp only at h ⊢
  split at h
  · rename_i hfit
    exact ⟨hfit, by simp only [hfit, if_true]; rfl⟩
  · cases h

/-- The nanosecond counts of an index in range. -/
theorem indexNanos_eq {f : Frame} (h : ∀ t ∈ f.index, t.toNanos?.isSome = true) :
    indexNanos f = .ok (f.index.toList.map nanoOf) := by
  apply mapM_eq_ok_map
  intro t ht
  rw [(toNanos?_eq_some (h t (Array.mem_toList_iff.1 ht))).2]
  rfl

/-- The index section compresses the samples of the timestamps. -/
theorem indexBytes_eq (index : Array Timestamp) :
    indexBytes (index.toList.map nanoOf) index = Gorilla.encode (index.toList.map sampleOf) := by
  have hzip : ∀ l : List Timestamp, ((l.map nanoOf).zip l).map
      (fun (x : Int64 × Timestamp) => (⟨x.1, (offsetValue x.2.offset).bits⟩ : Sample)) = l.map sampleOf := by
    intro l
    induction l with
    | nil => rfl
    | cons t l ih => simp only [List.map_cons, List.zip_cons_cons, ih]; rfl
  rw [indexBytes, hzip]

/-- An offset stored as a double is read back. -/
theorem ofSeconds?_offsetValue (o : Offset) : Offset.ofSeconds? (offsetValue o).toInt32Saturating = some o := by
  have h₁ := o.gt_neg_day
  have h₂ := o.lt_day
  have hsec : (offsetValue o).toInt32Saturating = o.seconds := by
    rw [offsetValue, Decimal.toInt32Saturating_toDouble _ (by omega)]
    split
    · rename_i hneg
      have : o.seconds < 0 := by simpa using hneg
      omega
    · rename_i hneg
      have : 0 ≤ o.seconds := by simpa using hneg
      omega
  rw [hsec, Offset.ofSeconds?, dif_pos ⟨h₁, h₂⟩]

/-- Outside a leap second, the timestamp of a timestamp's count at its offset is itself. -/
theorem ofNanos_nanoCount {t : Timestamp} (ht : ¬ t.IsLeap) {n : Int} (hn : n = t.nanoCount)
    (h : fitsInt64 n = true) : Timestamp.ofNanos n h t.offset = t := by
  subst hn
  unfold Timestamp.IsLeap at ht
  obtain ⟨second, nano, offset, _, _, _⟩ := t
  simp only [Timestamp.ofNanos, Timestamp.nanoCount, nanosPerSecond, Timestamp.mk.injEq, and_true]
  simp only at ht
  omega

/-- The index sample of a timestamp outside a leap second is read back as it. -/
theorem timestampOf_sampleOf {t : Timestamp} (ht : ¬ t.IsLeap) (hfit : fitsInt64 t.nanoCount = true) :
    timestampOf (sampleOf t) = .ok t := by
  have hb := fitsInt64_iff.1 hfit
  have hv : (⟨(sampleOf t).value⟩ : Double) = offsetValue t.offset := rfl
  unfold timestampOf
  simp only [hv, ofSeconds?_offsetValue]
  exact congrArg Except.ok (ofNanos_nanoCount ht (Int64.toInt_ofInt_of_le (by omega) (by omega)) _)

/-- A float column's samples keep the index's times. -/
theorem any_time_ne_eq_false (l : List Timestamp) (vs : List Double) :
    ((((l.map nanoOf).zip vs).map fun (x : Int64 × Double) => (⟨x.1, x.2.bits⟩ : Sample)).zip
      (l.map sampleOf)).any (fun (x : Sample × Sample) => x.1.time != x.2.time) = false := by
  induction l generalizing vs with
  | nil => rfl
  | cons t l ih =>
    cases vs with
    | nil => rfl
    | cons v vs =>
      simp only [List.map_cons, List.zip_cons_cons, List.any_cons, ih]
      simp [sampleOf]

/-- Stored texts, each with its length, have a byte for each text at least, and more bytes
than any one text. -/
theorem length_le_flatMap_entryBytes (xs : List String) :
    xs.length ≤ (xs.flatMap TextList.entryBytes).length ∧
      ∀ s ∈ xs, s.utf8ByteSize ≤ (xs.flatMap TextList.entryBytes).length := by
  induction xs with
  | nil => simp
  | cons x xs ih =>
    simp only [List.flatMap_cons, List.length_append, TextList.length_entryBytes, List.length_cons,
      List.mem_cons, forall_eq_or_imp]
    exact ⟨by omega, by omega, fun s hs => by have := ih.2 s hs; omega⟩

/-- A stored text list whose length fits in 64 bits is read back. -/
theorem decode_encode_texts_of_size {xs : List String} (h : (TextList.encode xs).size < 2 ^ 64) :
    TextList.decode (TextList.encode xs) = .ok xs := by
  have hlen : (TextList.encode xs).size = 8 + (xs.flatMap TextList.entryBytes).length := by
    rw [← Array.length_toList, TextList.encode_toList, List.length_append, TextList.length_u64Bytes]
  obtain ⟨hcount, hsizes⟩ := length_le_flatMap_entryBytes xs
  exact TextList.decode_encode_texts xs (by omega) fun s hs => by have := hsizes s hs; omega

/-- A column written against the index's counts is read back from its section. -/
theorem readColumn_columnBytes {body : Array UInt8} {l : List Timestamp} {name : String} {c : Column}
    {s : Section} (hslice : slice body s name = .ok (columnBytes (l.map nanoOf) c))
    (hsize : c.size = l.length) (hbytes : (columnBytes (l.map nanoOf) c).size < 2 ^ 64) :
    readColumn body l.length (l.map sampleOf) ⟨name, c.kind, s⟩ = .ok (name, c) := by
  cases c with
  | float vs =>
    have hvs : vs.toList.length = l.length := by simpa [Column.size] using hsize
    -- the samples of the column are read back whole, with the index's times
    have hsamples : samples (columnBytes (l.map nanoOf) (.float vs)) l.length =
        .ok (((l.map nanoOf).zip vs.toList).map fun (x : Int64 × Double) => (⟨x.1, x.2.bits⟩ : Sample)) := by
      have hl : l.length = ((((l.map nanoOf).zip vs.toList).map
          fun (x : Int64 × Double) => (⟨x.1, x.2.bits⟩ : Sample))).length := by simp [hvs]
      rw [columnBytes, hl, samples, Gorilla.decode_encode_length]
    have hvalues : ((((l.map nanoOf).zip vs.toList).map
        fun (x : Int64 × Double) => (⟨x.1, x.2.bits⟩ : Sample)).map fun s => (⟨s.value⟩ : Double)) = vs.toList := by
      rw [List.map_map]
      exact List.map_snd_zip (by simp [hvs])
    simp only [readColumn, hslice, Column.kind, bind, Except.bind, hsamples, any_time_ne_eq_false,
      Bool.false_eq_true, if_false, hvalues, pure, Except.pure, Array.toArray_toList]
  | text vs =>
    simp only [readColumn, hslice, Column.kind, bind, Except.bind, columnBytes,
      decode_encode_texts_of_size hbytes, pure, Except.pure, Array.toArray_toList]

/-- Columns with distinct names, each of the index's length, added one after another to a frame
of no columns make the frame of those columns. -/
theorem foldlM_insertColumn_eq (name : String) (index : Array Timestamp) :
    ∀ (cols pre : List (String × Column)), ((pre ++ cols).map (·.1)).Nodup →
      (∀ m ∈ cols, m.2.size = index.size) →
      cols.foldlM (fun (f : Frame) (m : String × Column) => f.insertColumn m.1 m.2) ⟨name, index, pre⟩ =
        (.ok ⟨name, index, pre ++ cols⟩ : Except FrameError Frame)
  | [], pre, _, _ => by simp [pure, Except.pure]
  | (n, c) :: cols, pre, hnodup, hsizes => by
    have hnot : n ∉ (⟨name, index, pre⟩ : Frame).columnNames := by
      intro hn
      rw [List.map_append, List.nodup_append] at hnodup
      exact hnodup.2.2 n hn n (List.mem_map_of_mem List.mem_cons_self) rfl
    have hins : (⟨name, index, pre⟩ : Frame).insertColumn n c = .ok ⟨name, index, pre ++ [(n, c)]⟩ :=
      Frame.insertColumn_of_not_mem (hsizes (n, c) List.mem_cons_self) hnot
    rw [List.foldlM_cons, hins]
    simp only [bind, Except.bind]
    rw [foldlM_insertColumn_eq name index cols (pre ++ [(n, c)]) (by simpa using hnodup)
      fun m hm => hsizes m (List.mem_cons_of_mem _ hm)]
    simp

/-- A well-formed frame is made again from its index name, its index and its columns. -/
theorem ofParts_of_wellFormed {f : Frame} (hf : f.WellFormed) :
    Frame.ofParts f.indexName f.index f.columns = .ok f := by
  have h := foldlM_insertColumn_eq f.indexName f.index f.columns [] hf.names hf.sizes
  rw [List.nil_append] at h
  exact h

/-! ### Reading a frame back -/

/-- Compressed samples are read back in full. -/
theorem samples_encode (ss : List Sample) : samples (Gorilla.encode ss) ss.length = .ok ss := by
  rw [samples, Gorilla.decode_encode_length]

/-- The index samples of timestamps outside leap seconds are read back as the timestamps. -/
theorem mapM_timestampOf_sampleOf {l : List Timestamp} (hnanos : ∀ t ∈ l, fitsInt64 t.nanoCount = true)
    (hnl : ∀ t ∈ l, ¬ t.IsLeap) : (l.map sampleOf).mapM timestampOf = .ok l :=
  mapM_eq_ok_iff.2 (List.forall₂_map_left_iff.2 (List.forall₂_same.2 fun t ht =>
    timestampOf_sampleOf (hnl t ht) (hnanos t ht)))

/-- The columns a header lists, each written against the index's counts in its section, are
read back in order. -/
theorem mapM_readColumn {body : Array UInt8} {l : List Timestamp} {cols : List (String × Column)}
    {secs : List Section}
    (hcols : List.Forall₂ (fun (m : String × Column) (s : Section) =>
      slice body s m.1 = .ok (columnBytes (l.map nanoOf) m.2) ∧
        (columnBytes (l.map nanoOf) m.2).size < 2 ^ 64) cols secs)
    (hsizes : ∀ m ∈ cols, m.2.size = l.length) :
    ((cols.zip secs).map fun ((n, c), s) => (⟨n, c.kind, s⟩ : ColumnEntry)).mapM
      (readColumn body l.length (l.map sampleOf)) = .ok cols := by
  induction hcols with
  | nil => rfl
  | @cons m s cols secs hm _ ih =>
    obtain ⟨n, c⟩ := m
    have hhead := readColumn_columnBytes hm.1 (hsizes (n, c) List.mem_cons_self) hm.2
    have htail := ih fun m hm => hsizes m (List.mem_cons_of_mem _ hm)
    simp only [List.zip_cons_cons, List.map_cons, List.mapM_cons, hhead, htail, bind, Except.bind,
      pure, Except.pure]

/-- A file whose header and body hold a well-formed frame's index and columns, each in its
section, is read back as that frame. -/
theorem decode_of_split {bytes : ByteArray} {h : PartitionHeader} {body : Array UInt8} {f : Frame}
    {secs : List Section} (hf : f.WellFormed) (hnanos : ∀ t ∈ f.index, fitsInt64 t.nanoCount = true)
    (hnl : ∀ t ∈ f.index, ¬ t.IsLeap) (hsplit : split bytes = .ok (h, body))
    (hrows : h.rows = f.size) (hname : h.indexName = f.indexName)
    (hindex : slice body h.index "index" = .ok (Gorilla.encode (f.index.toList.map sampleOf)))
    (hcolumns : h.columns = (f.columns.zip secs).map fun ((n, c), s) => (⟨n, c.kind, s⟩ : ColumnEntry))
    (hcols : List.Forall₂ (fun (m : String × Column) (s : Section) =>
      slice body s m.1 = .ok (columnBytes (f.index.toList.map nanoOf) m.2) ∧
        (columnBytes (f.index.toList.map nanoOf) m.2).size < 2 ^ 64) f.columns secs) :
    decode bytes = .ok (h, f) := by
  have hlen : f.size = (f.index.toList.map sampleOf).length := by
    rw [List.length_map, Array.length_toList, Frame.size]
  have hsamples := samples_encode (f.index.toList.map sampleOf)
  rw [← hlen, ← hrows] at hsamples
  have hindexOf := mapM_timestampOf_sampleOf (l := f.index.toList)
    (fun t ht => hnanos t (Array.mem_toList_iff.1 ht)) (fun t ht => hnl t (Array.mem_toList_iff.1 ht))
  have hcolumnsOf := mapM_readColumn hcols fun m hm => by
    rw [hf.sizes m hm, Array.length_toList, Frame.size]
  rw [Array.length_toList, ← Frame.size, ← hrows, ← hcolumns] at hcolumnsOf
  have hparts : Frame.ofParts h.indexName f.index.toList.toArray f.columns = .ok f := by
    rw [hname, Array.toArray_toList]
    exact ofParts_of_wellFormed hf
  simp only [decode, hsplit, hindex, hsamples, hindexOf, hcolumnsOf, hparts, bind, Except.bind,
    pure, Except.pure]

/-! ### Writing a frame -/

/-- The sections of a frame's file body: the index, then each column in order. -/
def bodyParts (f : Frame) : List (Array UInt8) :=
  Gorilla.encode (f.index.toList.map sampleOf) ::
    f.columns.map fun m => columnBytes (f.index.toList.map nanoOf) m.2

/-- A non-empty frame in the nanosecond range is written as its header and the sections of its
index and columns. -/
theorem encode_eq {f : Frame} {first last : Timestamp} (created : CreatedAt)
    (hfirst : f.first? = some first) (hlast : f.last? = some last)
    (hnanos : ∀ t ∈ f.index, t.toNanos?.isSome = true) :
    encode f created =
      .ok (assemble (headerOf f first last (sectionsFrom 0 (bodyParts f)) created) (bodyParts f)) := by
  simp only [encode, hfirst, hlast, indexNanos_eq hnanos, indexBytes_eq, layout_eq, bind, Except.bind,
    pure, Except.pure]
  rfl

/-- A frame is written only when it has a first and a last timestamp and all its timestamps are
in the nanosecond range, and then as its header and the sections of its index and columns. -/
theorem encode_eq_ok {f : Frame} {created : CreatedAt} {bytes : ByteArray} (h : encode f created = .ok bytes) :
    ∃ first last, f.first? = some first ∧ f.last? = some last ∧ (∀ t ∈ f.index, t.toNanos?.isSome = true) ∧
      bytes = assemble (headerOf f first last (sectionsFrom 0 (bodyParts f)) created) (bodyParts f) := by
  cases hfirst : f.first? with
  | none => simp [encode, hfirst] at h
  | some first =>
  cases hlast : f.last? with
  | none => simp [encode, hfirst, hlast] at h
  | some last =>
  -- the index's nanosecond counts were all found
  have hnanos : ∀ t ∈ f.index, t.toNanos?.isSome = true := by
    cases hn : indexNanos f with
    | error err => simp [encode, hfirst, hlast, hn, bind, Except.bind] at h
    | ok nanos =>
      intro t ht
      obtain ⟨n, -, hn'⟩ :=
        Frame.exists_of_forall₂_of_mem_right (mapM_eq_ok_iff.1 hn).flip (Array.mem_toList_iff.2 ht)
      revert hn'
      cases t.toNanos? <;> simp
  refine ⟨first, last, rfl, rfl, hnanos, ?_⟩
  rw [encode_eq created hfirst hlast hnanos] at h
  exact (Except.ok.inj h).symm

/-- A file is as long as its preamble, its header and the sections of its body. -/
theorem size_assemble (header : PartitionHeader) (parts : List (Array UInt8)) :
    (assemble header parts).size =
      preambleLength + header.toBytes.size + (parts.flatMap Array.toList).length := by
  have hu : (u32Bytes header.toBytes.size).length = 4 := by simp [u32Bytes]
  have hbody : (parts.foldl (· ++ ·) #[]).size = (parts.flatMap Array.toList).length := by
    rw [← Array.length_toList, toList_foldl_append]
    rfl
  change ((magic ++ [version] ++ u32Bytes header.toBytes.size).toArray ++ header.toBytes.data ++
    parts.foldl (· ++ ·) #[]).size = _
  rw [Array.size_append, Array.size_append, List.size_toArray, hbody, List.length_append,
    List.length_append, hu]
  rfl

/-- Every section laid from a start ends before the parts do. -/
theorem le_of_mem_sectionsFrom {s : Section} :
    ∀ {start : Nat} {parts : List (Array UInt8)}, s ∈ sectionsFrom start parts →
      s.offset + s.size ≤ start + (parts.flatMap Array.toList).length
  | _, [], h => by simp [sectionsFrom] at h
  | start, p :: ps, h => by
    rw [sectionsFrom, List.mem_cons] at h
    rw [List.flatMap_cons, List.length_append, Array.length_toList]
    rcases h with rfl | h
    · simp only
      omega
    · have := le_of_mem_sectionsFrom h
      omega

/-- A header whose rows, sections and creation time are in range has every number the stored
header can hold. -/
theorem fits_headerOf {f : Frame} {first last : Timestamp} {secs : List Section} {created : CreatedAt}
    (hcreated : created.seconds < 2 ^ 63 ∧ created.nanos < 1000000000)
    (hrows : f.size ≤ PartitionHeader.u64Max)
    (hsecs : ∀ s ∈ secs, s.offset + s.size ≤ PartitionHeader.u64Max) :
    (headerOf f first last secs created).Fits where
  rows_le := hrows
  index_offset_le := by
    cases secs with
    | nil => exact Nat.zero_le _
    | cons s secs => have := hsecs s List.mem_cons_self; simp only [headerOf, List.headD_cons]; omega
  index_size_le := by
    cases secs with
    | nil => exact Nat.zero_le _
    | cons s secs => have := hsecs s List.mem_cons_self; simp only [headerOf, List.headD_cons]; omega
  columns_le := by
    intro c hc
    simp only [headerOf, List.mem_map] at hc
    obtain ⟨⟨⟨n, col⟩, s⟩, hmem, rfl⟩ := hc
    have := hsecs s (List.mem_of_mem_tail (List.of_mem_zip hmem).2)
    dsimp only
    exact ⟨by omega, by omega⟩
  seconds_le := by
    have := hcreated.1
    simp only [headerOf, PartitionHeader.u64Max]
    omega
  nanos_le := by
    have := hcreated.2
    simp only [headerOf]
    omega
  created_le := by
    have := hcreated.1
    simp only [headerOf, Nat.div_eq_of_lt hcreated.2]
    omega

/-- A timestamp in the nanosecond range, outside a leap second and with an offset that does not
round to a whole day, is read back from its written form; at an offset of whole minutes it is
read back as itself. -/
theorem parseLenient_rfc3339With_of_toNanos? {t : Timestamp} (hn : t.toNanos?.isSome = true)
    (hl : ¬ t.IsLeap) (hround : (t.offset.seconds.natAbs + 30) / 60 < 1440) :
    ∃ s, Timestamp.parseLenient (t.rfc3339With true) = .ok s ∧ (t.offset.seconds % 60 = 0 → s = t) := by
  obtain ⟨hfit, hsome⟩ := toNanos?_eq_some hn
  obtain ⟨hy0, hy1⟩ := Timestamp.localDate_year_bounds hsome
  have hb := fitsInt64_iff.1 hfit
  have hleap : t.nano < 1000000000 := Nat.lt_of_not_le hl
  have hlo : minSecond + 30 ≤ t.second := by
    unfold minSecond
    unfold Timestamp.nanoCount at hb
    omega
  have hhi : t.second + 30 ≤ maxSecond := by
    unfold maxSecond
    unfold Timestamp.nanoCount at hb
    omega
  obtain ⟨s, hs, -⟩ := Timestamp.toTimestamp_zuluFields hy0 hy1 hround hleap hlo hhi
  have hparse := (Timestamp.parseLenient_rfc3339With hy0 hy1 hround).trans hs
  refine ⟨s, hparse, fun hwhole => ?_⟩
  have hexact := Timestamp.parseLenient_rfc3339With_exact ⟨hy0, hy1, hwhole, fun h => absurd h hl⟩
  rw [hparse] at hexact
  exact Except.ok.inj hexact

/-! ### The round trip -/

theorem length_sectionsFrom : ∀ (start : Nat) (parts : List (Array UInt8)),
    (sectionsFrom start parts).length = parts.length
  | _, [] => rfl
  | start, _ :: ps => by rw [sectionsFrom, List.length_cons, length_sectionsFrom, List.length_cons]

/-- The header lists each column by its name and kind, whatever sections they lie in. -/
theorem map_columnEntry_zip {cols : List (String × Column)} {secs : List Section}
    (h : cols.length ≤ secs.length) :
    ((cols.zip secs).map fun ((n, c), s) => (⟨n, c.kind, s⟩ : ColumnEntry)).map (fun c => (c.name, c.kind)) =
      cols.map fun m => (m.1, m.2.kind) := by
  conv_rhs => rw [← List.map_fst_zip h, List.map_map]
  rw [List.map_map]
  rfl

/-- The first timestamp of a non-empty frame. -/
theorem first?_isSome {f : Frame} (h : 0 < f.size) : ∃ t, f.first? = some t :=
  ⟨f.index[0], Array.getElem?_eq_getElem h⟩

/-- The last timestamp of a non-empty frame. -/
theorem last?_isSome {f : Frame} (h : 0 < f.size) : ∃ t, f.last? = some t := by
  have hlt : f.index.size - 1 < f.index.size := by
    unfold Frame.size at h
    omega
  exact ⟨f.index[f.index.size - 1], by rw [Frame.last?, Array.back?, Array.getElem?_eq_getElem hlt]⟩

/-- A frame's file made at `created` fits the fixed-width numbers of the format: its count of
rows and the length of its body fit in 64 bits, and the length of its header in the 32 bits
the preamble keeps for it. Only the header depends on the creation time, whose digits it holds. -/
structure FileFits (f : Frame) (created : CreatedAt) : Prop where
  rows_le : f.size ≤ PartitionHeader.u64Max
  body_lt : ((bodyParts f).flatMap Array.toList).length < u64Max
  header_lt : ∀ first last, f.first? = some first → f.last? = some last →
    (headerOf f first last (sectionsFrom 0 (bodyParts f)) created).toBytes.size < 2 ^ 32

/-- The body of a file is its sections one after another. -/
theorem size_body (f : Frame) :
    ((bodyParts f).foldl (· ++ ·) #[]).size = ((bodyParts f).flatMap Array.toList).length := by
  rw [← Array.length_toList, toList_foldl_append]
  rfl

/-- The header of a fitting file, made at a time a clock can give, has every number the stored
header can hold. -/
theorem FileFits.fits {f : Frame} {first last : Timestamp} {created : CreatedAt} (hfit : FileFits f created)
    (hcreated : created.Valid) :
    (headerOf f first last (sectionsFrom 0 (bodyParts f)) created).Fits :=
  fits_headerOf hcreated hfit.rows_le fun s hs => by
    have := le_of_mem_sectionsFrom hs
    have := hfit.body_lt
    unfold u64Max at this
    unfold PartitionHeader.u64Max
    omega

/-- A file under 4 GiB fits the format, whenever it is made. -/
theorem fileFits_of_size {f : Frame} {first last : Timestamp} {created : CreatedAt}
    (hfirst : f.first? = some first) (hlast : f.last? = some last)
    (hsize : (assemble (headerOf f first last (sectionsFrom 0 (bodyParts f)) created) (bodyParts f)).size <
      2 ^ 32) : FileFits f created where
  rows_le := by
    have := Gorilla.length_le_size_encode (f.index.toList.map sampleOf)
    have hindex : (Gorilla.encode (f.index.toList.map sampleOf)).size ≤ ((bodyParts f).flatMap Array.toList).length := by
      rw [bodyParts, List.flatMap_cons, List.length_append, Array.length_toList]
      omega
    rw [size_assemble] at hsize
    rw [List.length_map, Array.length_toList] at this
    unfold Frame.size PartitionHeader.u64Max
    omega
  body_lt := by
    rw [size_assemble] at hsize
    unfold u64Max
    omega
  header_lt first' last' hfirst' hlast' := by
    rw [hfirst, Option.some.injEq] at hfirst'
    rw [hlast, Option.some.injEq] at hlast'
    subst hfirst' hlast'
    rw [size_assemble] at hsize
    omega

/-- The file of a well-formed frame in the nanosecond range with no leap second, fitting the
format, is read back as the frame, under its header with the first and last timestamps as their
written forms are read back. -/
theorem decode_assemble {f : Frame} {first last s e : Timestamp} {created : CreatedAt}
    (hf : f.WellFormed) (hnanos : ∀ t ∈ f.index, t.toNanos?.isSome = true)
    (hnl : ∀ t ∈ f.index, ¬ t.IsLeap) (hcreated : created.seconds < 2 ^ 63 ∧ created.nanos < 1000000000)
    (hfirst : f.first? = some first) (hlast : f.last? = some last)
    (hs : Timestamp.parseLenient (first.rfc3339With true) = .ok s)
    (he : Timestamp.parseLenient (last.rfc3339With true) = .ok e) (hfit : FileFits f created) :
    decode (assemble (headerOf f first last (sectionsFrom 0 (bodyParts f)) created) (bodyParts f)) =
      .ok ({ headerOf f first last (sectionsFrom 0 (bodyParts f)) created with start := s, stop := e }, f) := by
  -- every section is where the header says it is
  have hextract := @forall₂_extract_sectionsFrom ((bodyParts f).foldl (· ++ ·) #[])
    (bodyParts f) [] [] (by rw [toList_foldl_append, List.append_nil])
  have hsplit : split (assemble (headerOf f first last (sectionsFrom 0 (bodyParts f)) created) (bodyParts f)) =
      .ok ({ headerOf f first last (sectionsFrom 0 (bodyParts f)) created with start := s, stop := e },
        (bodyParts f).foldl (· ++ ·) #[]) := by
    rw [split_assemble _ (hfit.header_lt first last hfirst hlast),
      PartitionHeader.read_toBytes (hfit.fits hcreated) hs he]
  have hbodyLt : ((bodyParts f).foldl (· ++ ·) #[]).size < u64Max := by
    rw [size_body]
    exact hfit.body_lt
  generalize (bodyParts f).foldl (· ++ ·) #[] = body at hextract hsplit hbodyLt
  rw [bodyParts, sectionsFrom, List.forall₂_cons, List.forall₂_map_left_iff] at hextract
  obtain ⟨⟨hindexLe, hindexExtract⟩, hcolumns⟩ := hextract
  refine decode_of_split hf (fun t ht => (toNanos?_eq_some (hnanos t ht)).1) hnl hsplit rfl rfl ?_ rfl
    (hcolumns.imp fun m sec hm => ⟨?_, ?_⟩)
  · rw [← hindexExtract]
    exact slice_of_le _ hindexLe hbodyLt
  · rw [← hm.2]
    exact slice_of_le _ hm.1 hbodyLt
  · rw [← hm.2, Array.size_extract]
    unfold u64Max at hbodyLt
    omega

/-- A non-empty well-formed frame in the nanosecond range with no leap second, whose first and
last offsets do not round to a whole day, is written; a file of it that fits the format, its
header's length in 32 bits and its rows and body in 64, is read back as the same frame, under a
header that counts its rows, names its index and lists its columns with their kinds, and whose
first and last timestamps are the frame's where their offsets are whole minutes. -/
theorem decode_encode_frame {f : Frame} (created : CreatedAt) (hf : f.WellFormed) (hne : 0 < f.size)
    (hnanos : ∀ t ∈ f.index, t.toNanos?.isSome = true) (hnl : ∀ t ∈ f.index, ¬ t.IsLeap)
    (hround : ∀ t, f.first? = some t ∨ f.last? = some t → (t.offset.seconds.natAbs + 30) / 60 < 1440)
    (hcreated : created.seconds < 2 ^ 63 ∧ created.nanos < 1000000000) :
    ∃ bytes, encode f created = .ok bytes ∧ (FileFits f created →
      ∃ h, decode bytes = .ok (h, f) ∧ h.rows = f.size ∧ h.indexName = f.indexName ∧
        h.columns.map (fun c => (c.name, c.kind)) = f.columns.map (fun m => (m.1, m.2.kind)) ∧
        (∀ t, f.first? = some t → t.offset.seconds % 60 = 0 → h.start = t) ∧
        (∀ t, f.last? = some t → t.offset.seconds % 60 = 0 → h.stop = t)) := by
  obtain ⟨first, hfirst⟩ := first?_isSome hne
  obtain ⟨last, hlast⟩ := last?_isSome hne
  have hfirstMem : first ∈ f.index := Array.mem_of_getElem? hfirst
  have hlastMem : last ∈ f.index := Array.mem_of_getElem? hlast
  -- the header's first and last timestamps are read back
  obtain ⟨s, hs, hsEq⟩ := parseLenient_rfc3339With_of_toNanos? (hnanos first hfirstMem)
    (hnl first hfirstMem) (hround first (.inl hfirst))
  obtain ⟨e, he, heEq⟩ := parseLenient_rfc3339With_of_toNanos? (hnanos last hlastMem)
    (hnl last hlastMem) (hround last (.inr hlast))
  refine ⟨_, encode_eq created hfirst hlast hnanos, fun hfit =>
    ⟨_, decode_assemble hf hnanos hnl hcreated hfirst hlast hs he hfit, rfl, rfl, ?_, fun t ht hw => ?_,
      fun t ht hw => ?_⟩⟩
  · apply map_columnEntry_zip
    rw [bodyParts, sectionsFrom, List.tail_cons, length_sectionsFrom, List.length_map]
  · rw [Option.some.inj (hfirst.symm.trans ht)] at hsEq
    exact hsEq hw
  · rw [Option.some.inj (hlast.symm.trans ht)] at heEq
    exact heEq hw

/-- One row at 2023-11-14T22:13:20Z: a byte count of 1 and the link "a". -/
def oneRowFrame : Frame :=
  ⟨"time", #[(Timestamp.ofParts? 1700000000 0 .utc).getD default],
    [("bytes", .float #[⟨0x3FF0000000000000⟩]), ("link", .text #["a"])]⟩

theorem decode_encode_frame_oneRow :
    FileFits oneRowFrame ⟨0, 0⟩ ∧
    ∃ bytes, encode oneRowFrame ⟨0, 0⟩ = .ok bytes ∧ (FileFits oneRowFrame ⟨0, 0⟩ →
      ∃ h, decode bytes = .ok (h, oneRowFrame) ∧ h.rows = oneRowFrame.size ∧
        h.indexName = oneRowFrame.indexName ∧
        h.columns.map (fun c => (c.name, c.kind)) = oneRowFrame.columns.map (fun m => (m.1, m.2.kind)) ∧
        (∀ t, oneRowFrame.first? = some t → t.offset.seconds % 60 = 0 → h.start = t) ∧
        (∀ t, oneRowFrame.last? = some t → t.offset.seconds % 60 = 0 → h.stop = t)) := by
  have hf : oneRowFrame.WellFormed := ⟨by decide, by decide⟩
  refine ⟨fileFits_of_size rfl rfl (by decide +kernel),
    decode_encode_frame ⟨0, 0⟩ hf (by decide) (by decide) (by decide) ?_ (by decide)⟩
  rintro t (ht | ht) <;> cases ht <;> decide

/-! ### Files made at other times

A file's header holds the time it was made, and nothing else of it depends on that time. Reading
a file splits off the header, reads it, and then reads the frame from the body as the header's
rows, index and columns say (`decodeFrame`). Whether the header is read depends only on its
first and last timestamps (`PartitionHeader.read_toBytes_eq_ok_iff`), so two files of one frame,
made at two times and both fitting the format, are read as the same frame or both not at all
(`exists_decode_encode_iff`). -/

/-- What reading a file does after the split: the frame that the header's rows, index and
columns describe in the body. -/
def decodeFrame (h : PartitionHeader) (body : Array UInt8) : Except ReadError Frame := do
  let indexSamples ← samples (← slice body h.index "index") h.rows
  let index ← indexSamples.mapM timestampOf
  let columns ← h.columns.mapM (readColumn body h.rows indexSamples)
  match Frame.ofParts h.indexName index.toArray columns with
  | .ok f => return f
  | .error e => throw (.corrupt (.inconsistent e))

theorem decode_eq (bytes : ByteArray) :
    decode bytes = split bytes >>= fun (h, body) => (decodeFrame h body).map (h, ·) := by
  simp only [decode, decodeFrame, bind, Except.bind]
  -- the two sides take the same steps; only the last one pairs the frame with the header
  rcases split bytes with _ | ⟨h, body⟩
  · rfl
  · dsimp only
    rcases slice body h.index "index" with _ | data <;> try rfl
    dsimp only
    rcases samples data h.rows with _ | ss <;> try rfl
    dsimp only
    rcases ss.mapM timestampOf with _ | index <;> try rfl
    dsimp only
    rcases h.columns.mapM (readColumn body h.rows ss) with _ | cols <;> try rfl
    dsimp only
    rcases Frame.ofParts h.indexName index.toArray cols with _ | f <;> rfl

/-- A file whose header's numbers fit and whose header's length fits its 32 bits is read as a
frame exactly when the written forms of the header's first and last timestamps are read and the
body holds the frame as the header describes it. -/
theorem exists_decode_assemble_iff {header : PartitionHeader} {parts : List (Array UInt8)} {g : Frame}
    (hfits : header.Fits) (hsize : header.toBytes.size < 2 ^ 32) :
    (∃ h, decode (assemble header parts) = .ok (h, g)) ↔
      (∃ s e, Timestamp.parseLenient (header.start.rfc3339With true) = .ok s ∧
        Timestamp.parseLenient (header.stop.rfc3339With true) = .ok e) ∧
      decodeFrame header (parts.foldl (· ++ ·) #[]) = .ok g := by
  rw [decode_eq, split_assemble _ hsize]
  cases hr : PartitionHeader.read header.toBytes with
  | error err =>
    -- a header that is not read had a timestamp the lenient reader refuses
    simp only [bind, Except.bind, reduceCtorEq, exists_false, false_iff, not_and]
    rintro ⟨s, e, hs, he⟩
    rw [PartitionHeader.read_toBytes hfits hs he] at hr
    cases hr
  | ok h' =>
    obtain ⟨s, e, hs, he, rfl⟩ := (PartitionHeader.read_toBytes_eq_ok_iff hfits).1 hr
    -- the frame is read from the body alike under the header as written and as read
    change (∃ h, ((decodeFrame header (parts.foldl (· ++ ·) #[])).map
      ({ header with start := s, stop := e }, ·)) = .ok (h, g)) ↔ _
    cases decodeFrame header (parts.foldl (· ++ ·) #[]) with
    | error err => simp [Except.map]
    | ok g' => simp [Except.map, hs, he]

/-- Two files of one frame, made at two creation times a clock can give and both fitting the
format, are read as the same frame, or neither is read. -/
theorem exists_decode_encode_iff {f g : Frame} {t t' : CreatedAt} {x y : ByteArray}
    (hx : encode f t = .ok x) (hy : encode f t' = .ok y)
    (ht : t.Valid) (ht' : t'.Valid) (hfit : FileFits f t) (hfit' : FileFits f t') :
    (∃ h, decode x = .ok (h, g)) ↔ ∃ h, decode y = .ok (h, g) := by
  obtain ⟨first, last, hfirst, hlast, -, rfl⟩ := encode_eq_ok hx
  obtain ⟨first', last', hfirst', hlast', -, rfl⟩ := encode_eq_ok hy
  rw [hfirst, Option.some.injEq] at hfirst'
  rw [hlast, Option.some.injEq] at hlast'
  subst hfirst' hlast'
  rw [exists_decode_assemble_iff (hfit.fits ht) (hfit.header_lt first last hfirst hlast),
    exists_decode_assemble_iff (hfit'.fits ht') (hfit'.header_lt first last hfirst hlast)]
  -- the two headers differ in their creation time only, which neither side reads
  rfl

/-! ### Leap seconds -/

/-- An index sample is read as a timestamp outside a leap second. -/
theorem not_leap_of_timestampOf {s : Sample} {t : Timestamp} (h : timestampOf s = .ok t) :
    ¬ t.IsLeap := by
  unfold timestampOf at h
  dsimp only at h
  split at h
  · cases h
    simp only [Timestamp.IsLeap, Timestamp.ofNanos, nanosPerSecond]
    omega
  · cases h

/-- No timestamp of an index read from its samples is in a leap second. -/
theorem not_leap_of_mapM_timestampOf {ss : List Sample} {ts : List Timestamp}
    (h : ss.mapM timestampOf = .ok ts) : ∀ t ∈ ts, ¬ t.IsLeap := by
  have hall := mapM_eq_ok_iff.1 h
  clear h
  induction hall with
  | nil => simp
  | cons hs _ ih =>
    intro t ht
    rcases List.mem_cons.1 ht with rfl | ht
    · exact not_leap_of_timestampOf hs
    · exact ih t ht

/-- A frame read from a file has no leap second in its index. -/
theorem index_not_leap_of_decode {bytes : ByteArray} {h : PartitionHeader} {g : Frame}
    (hd : decode bytes = .ok (h, g)) : ∀ t ∈ g.index, ¬ t.IsLeap := by
  unfold decode at hd
  rw [Except.bind_eq_ok] at hd
  obtain ⟨⟨h', body⟩, -, hd⟩ := hd
  simp only [Except.bind_eq_ok] at hd
  obtain ⟨data, -, ss, -, index, hidx, cols, -, hd⟩ := hd
  split at hd
  · rename_i g' hparts
    cases hd
    intro t ht
    rw [Frame.index_ofParts hparts, List.mem_toArray] at ht
    exact not_leap_of_mapM_timestampOf hidx t ht
  · cases hd

/-- The leap second 2016-12-31T23:59:60.5+01:00. -/
def leapSecond : Timestamp :=
  (Timestamp.ofParts? 1483225199 1500000000 ((Offset.ofSeconds? 3600).getD default)).getD default

/-- The leap second as the only row of a frame with no columns. -/
def leapSecondFrame : Frame := ⟨"time", #[leapSecond], []⟩

theorem leapSecond_folded :
    ∃ bytes, encode leapSecondFrame ⟨0, 0⟩ = .ok bytes ∧
      ∀ h g, decode bytes = .ok (h, g) → g.index ≠ leapSecondFrame.index := by
  refine ⟨_, encode_eq ⟨0, 0⟩ rfl rfl (by decide), fun h g hd hindex => ?_⟩
  have hmem : leapSecond ∈ g.index := by
    rw [hindex]
    simp [leapSecondFrame]
  exact index_not_leap_of_decode hd leapSecond hmem (by decide)

end PartitionCodec

end FrameCache
