import Mathlib
import FrameCache.Proofs.CacheModel
import FrameCache.Proofs.FrameRows
import FrameCache.Proofs.Refetch
import FrameCache.Proofs.DropRange
import FrameCache.Proofs.PartitionName

/-!
# The cache refines the map of its frames

A cache's directory holds, for every stored frame, the file of that frame under the name of its
first and last timestamps, its header stamped with the wall-clock time it was stored at.
`Represents made` says that a cache holds a `FrameMap` so: its directory is the map's directory
with each entry's file made at the time `made` gives its name (`FrameMap.toDirectory`), names
are distinct, every entry is a storable frame of the cache's schema (`Storable`) under its
partition's name, and its file fits the format at its time.

Main statement (`Cache.runOps_refines`): from an empty directory, over any sequence of requests
whose stores are each made at a time a clock can give, of a frame that is empty, holds a
timestamp beyond the nanosecond range, or is storable with a file that fits at that time, the
cache answers every request as the map does, and the cache afterwards holds the map. It is
assembled from one lemma per request (`Represents.store_step`, `Represents.dropRange_step`,
`Represents.get_eq`, gathered in `Represents.apply_step`) and `runOps_sim`.

Reading back rests on three facts: a partition's name is read as its two timestamps
(`Partition.partitionOf?_fileName`), its file decodes to its frame
(`PartitionCodec.decode_assemble`), and a read may skip the partitions whose interval misses its
window, because a sorted frame's rows lie between its first and last timestamps and the window
test is the closed one (`Frame.filterRange_concat_filter`).

A frame whose first or last local time lies past the supported years cannot be named, and
storing it is a fault rather than a refusal of its range (`store_farFuture_faults`).

A cache that holds a map is well stored (`Represents.wellStored`), so its statistics, read from
the partitions' headers alone, agree with getting everything (`Cache.stats_agrees_with_get`).
-/

namespace FrameCache

open Timestamp

namespace Partition

/-- A name of at most 255 ASCII characters, none of them NUL, is legal. -/
theorem checkName_of_ascii {name : String} (h : ∀ c ∈ name.toList, c.toNat < 128 ∧ c ≠ Char.ofNat 0)
    (hlen : name.toList.length ≤ Directory.maxNameBytes) : Directory.checkName name = .ok () := by
  have hsize : name.utf8ByteSize = name.toList.length := by
    have := utf8ByteSize_ofList_of_ascii fun c hc => (h c hc).1
    rwa [String.ofList_toList] at this
  refine Directory.checkName_eq_ok_iff.2 ⟨?_, by rw [hsize]; exact hlen⟩
  rw [String.contains_char_eq, decide_eq_false_iff_not]
  exact fun hc => (h _ hc).2 rfl

/-- The characters of an exactly written timestamp are ASCII and none is NUL. -/
theorem ascii_of_mem_rfc3339 {t : Timestamp} (ht : t.Rfc3339Exact) {c : Char} (hc : c ∈ t.rfc3339.toList) :
    c.toNat < 128 ∧ c ≠ Char.ofNat 0 := by
  have hr := isRfc3339Char_of_mem_rfc3339 ht hc
  refine ⟨(isRfc3339Char_spec hr).2.2, ?_⟩
  rintro rfl
  exact absurd hr (by decide)

variable {s e : Timestamp}

/-- The file name of a partition and its temporary name are legal. -/
theorem checkName_fileName (hs : s.Rfc3339Exact) (he : e.Rfc3339Exact) :
    Directory.checkName (s.rfc3339 ++ "_" ++ e.rfc3339 ++ "." ++ extension) = .ok () ∧
      Directory.checkName ("." ++ (s.rfc3339 ++ "_" ++ e.rfc3339 ++ "." ++ extension) ++ ".tmp") = .ok () := by
  have hls := length_rfc3339_le hs
  have hle := length_rfc3339_le he
  have hchars : ∀ c ∈ (s.rfc3339 ++ "_" ++ e.rfc3339 ++ "." ++ extension).toList,
      c.toNat < 128 ∧ c ≠ Char.ofNat 0 := by
    intro c hc
    simp only [String.toList_append, List.mem_append] at hc
    rcases hc with (((hc | hc) | hc) | hc) | hc
    · exact ascii_of_mem_rfc3339 hs hc
    · rw [List.mem_singleton.1 hc]; decide
    · exact ascii_of_mem_rfc3339 he hc
    · rw [List.mem_singleton.1 hc]; decide
    · simp only [extension] at hc
      rw [show "chunk".toList = ['c', 'h', 'u', 'n', 'k'] from rfl] at hc
      simp only [List.mem_cons, List.not_mem_nil, or_false] at hc
      rcases hc with rfl | rfl | rfl | rfl | rfl <;> exact ⟨by decide, by decide⟩
  have hlen : (s.rfc3339 ++ "_" ++ e.rfc3339 ++ "." ++ extension).toList.length ≤ 77 := by
    simp only [String.toList_append, List.length_append, extension]
    simp only [show "_".toList.length = 1 from rfl, show ".".toList.length = 1 from rfl,
      show "chunk".toList.length = 5 from rfl]
    omega
  generalize s.rfc3339 ++ "_" ++ e.rfc3339 ++ "." ++ extension = name at hchars hlen ⊢
  refine ⟨checkName_of_ascii hchars (by unfold Directory.maxNameBytes; omega), checkName_of_ascii ?_ ?_⟩
  · intro c hc
    simp only [String.toList_append, List.mem_append] at hc
    rcases hc with (hc | hc) | hc
    · rw [show ".".toList = ['.'] from rfl, List.mem_singleton] at hc
      rw [hc]
      exact ⟨by decide, by decide⟩
    · exact hchars c hc
    · rw [show ".tmp".toList = ['.', 't', 'm', 'p'] from rfl] at hc
      simp only [List.mem_cons, List.not_mem_nil, or_false] at hc
      rcases hc with rfl | rfl | rfl | rfl <;> exact ⟨by decide, by decide⟩
  · simp only [String.toList_append, List.length_append, Directory.maxNameBytes]
    simp only [show ".".toList.length = 1 from rfl, show ".tmp".toList.length = 4 from rfl]
    omega

/-- A name made of a stem that is not empty, a point and a text without points has that text as
its extension. -/
theorem extensionOf?_append {stem x : String} (hstem : stem ≠ "") (hx : '.' ∉ x.toList) :
    extensionOf? (stem ++ "." ++ x) = some x := by
  have hsplit : (stem ++ "." ++ x).toList.splitOn '.' = stem.toList.splitOn '.' ++ [x.toList] := by
    rw [show (stem ++ "." ++ x).toList = stem.toList ++ '.' :: x.toList by simp,
      List.splitOn_append_cons_self, List.splitOn_eq_singleton hx]
  unfold extensionOf?
  rw [hsplit, List.map_append, List.map_singleton, String.ofList_toList]
  -- the stem gives at least one part, and a single part is the stem itself, which is not empty
  obtain ⟨a, rest, ha⟩ := List.exists_cons_of_ne_nil (List.splitOn_ne_nil '.' stem.toList)
  rw [ha]
  cases rest with
  | nil =>
    have hstem' : stem.toList = a := by
      have : ['.'].intercalate (stem.toList.splitOn '.') = stem.toList := List.intercalate_splitOn '.'
      rw [ha] at this
      simpa using this.symm
    have hane : String.ofList a ≠ "" := by
      rw [← hstem', String.ofList_toList]
      exact hstem
    simp [hane]
  | cons b rest =>
    -- three parts or more: the last one is the extension
    simp only [List.map_cons]
    split
    · rename_i h
      simp at h
    · rename_i h
      simp at h
    · rename_i h
      simp at h
    · rw [List.getLast?_append]
      rfl

/-- The file name of a partition is read back as its two timestamps, when both are written
exactly. -/
theorem parseName_fileName (hs : s.Rfc3339Exact) (he : e.Rfc3339Exact) :
    parseName? (s.rfc3339 ++ "_" ++ e.rfc3339 ++ "." ++ extension) = some (s, e) := by
  obtain ⟨hsu, -, -⟩ := rfc3339_chars hs
  obtain ⟨heu, -, -⟩ := rfc3339_chars he
  rw [parseName_of_separated (by rw [stemOf_append_extension]; simp) hsu heu]
  simp only [String.ofList_toList, parsePair, parseRfc3339_rfc3339 hs, parseRfc3339_rfc3339 he]

/-- A file under a partition's name is listed as that partition. -/
theorem partitionOf?_fileName (hs : s.Rfc3339Exact) (he : e.Rfc3339Exact) (data : ByteArray) :
    partitionOf? (s.rfc3339 ++ "_" ++ e.rfc3339 ++ "." ++ extension, .file data) =
      some ⟨s.rfc3339 ++ "_" ++ e.rfc3339 ++ "." ++ extension, s, e⟩ := by
  have hstem : s.rfc3339 ++ "_" ++ e.rfc3339 ≠ "" := by
    intro h
    have := congrArg String.length h
    simp at this
  have hx : extensionOf? (s.rfc3339 ++ "_" ++ e.rfc3339 ++ "." ++ extension) = some extension :=
    extensionOf?_append hstem (by decide)
  simp [partitionOf?, hx, parseName_fileName hs he]

end Partition

namespace Frame

/-- A sorted frame's rows lie between its first and last timestamps. -/
theorem within_of_isSorted {f : Frame} {a b : Timestamp} (hs : f.isSorted = true) (ha : f.first? = some a)
    (hb : f.last? = some b) : ∀ t ∈ f.index, a ≤ t ∧ t ≤ b := by
  have hpw := (Timestamp.zip_tail_all_iff_pairwise _).1 hs
  rw [List.pairwise_iff_getElem] at hpw
  -- timestamps never go back along the index
  have hle : ∀ j k (hj : j < f.index.size) (hk : k < f.index.size), j ≤ k → f.index[j] ≤ f.index[k] := by
    intro j k hj hk hjk
    rcases Nat.lt_or_eq_of_le hjk with hlt | rfl
    · have h := hpw j k (by simpa using hj) (by simpa using hk) hlt
      rwa [Array.getElem_toList, Array.getElem_toList] at h
    · exact le_refl _
  intro t ht
  obtain ⟨i, hi, rfl⟩ := Array.mem_iff_getElem.1 ht
  have hpos : 0 < f.index.size := by omega
  rw [first?, Array.getElem?_eq_getElem hpos, Option.some.injEq] at ha
  rw [last?, Array.back?, Array.getElem?_eq_getElem (by omega), Option.some.injEq] at hb
  subst ha hb
  exact ⟨hle 0 i hpos hi (Nat.zero_le _), hle i _ hi (by omega) (by omega)⟩

/-- Frames of one schema, at least one, join. -/
theorem exists_concat_of_schema {fs : List Frame} {sch : List (String × ColumnKind)} (hne : fs ≠ [])
    (hs : ∀ g ∈ fs, g.schema = sch) : ∃ F, concat fs = .ok (some F) := by
  cases fs with
  | nil => exact absurd rfl hne
  | cons f fs =>
    obtain ⟨F, hF, -⟩ := concat_of_schema fun g hg =>
      (hs g (List.mem_cons_of_mem _ hg)).trans (hs f List.mem_cons_self).symm
    exact ⟨F, hF⟩

end Frame

/-- A frame that a cache with the given index name and columns stores and reads back as it was:
well formed, with that index name and those columns, sorted by time, within the signed 64-bit
nanosecond range, without leap seconds, and with its first and last timestamps at whole-minute
offsets. -/
structure Storable (indexName : String) (schema : List (String × ColumnKind)) (f : Frame) : Prop where
  wellFormed : f.WellFormed
  indexName_eq : f.indexName = indexName
  schema_eq : f.schema = schema
  sorted : f.isSorted = true
  inRange : ∀ t ∈ f.index, t.toNanos?.isSome = true
  noLeap : ∀ t ∈ f.index, ¬ t.IsLeap
  wholeMinutes : ∀ t, f.first? = some t ∨ f.last? = some t → t.offset.seconds % 60 = 0

/-- A frame a caller may store at `now`: an empty one, one with a timestamp beyond the signed
64-bit nanosecond range, or a storable one whose file made at `now` fits the format. -/
def Admissible (now : CreatedAt) (indexName : String) (schema : List (String × ColumnKind))
    (f : Frame) : Prop :=
  f.index = #[] ∨ (∃ t ∈ f.index, t.toNanos? = none) ∨
    (Storable indexName schema f ∧ PartitionCodec.FileFits f now)

namespace Storable

variable {now : CreatedAt} {idx : String} {sch : List (String × ColumnKind)} {f : Frame}

/-- The first and last timestamps of a storable frame are written exactly. -/
theorem rfc3339Exact (hf : Storable idx sch f) {t : Timestamp}
    (ht : f.first? = some t ∨ f.last? = some t) : t.Rfc3339Exact := by
  have hmem : t ∈ f.index := by
    rcases ht with ht | ht <;> exact Array.mem_of_getElem? ht
  obtain ⟨n, hn⟩ := Option.isSome_iff_exists.1 (hf.inRange t hmem)
  obtain ⟨hy0, hy1⟩ := localDate_year_bounds hn
  exact ⟨hy0, hy1, hf.wholeMinutes t ht, fun h => absurd h (hf.noLeap t hmem)⟩

/-- A storable frame is written, at a time a clock can give and at which its file fits the
format, as a file that is read back as the frame. -/
theorem decode_file (hf : Storable idx sch f) (hnow : now.Valid) (hfit : PartitionCodec.FileFits f now)
    {s e : Timestamp} (hs : f.first? = some s) (he : f.last? = some e) :
    ∃ bytes h, PartitionCodec.encode f now = .ok bytes ∧ 0 < bytes.size ∧
      PartitionCodec.decode bytes = .ok (h, f) := by
  have henc := PartitionCodec.encode_eq now hs he hf.inRange
  refine ⟨_, _, henc, ?_, PartitionCodec.decode_assemble hf.wellFormed hf.inRange hf.noLeap hnow hs he
    (parseLenient_rfc3339With_exact (hf.rfc3339Exact (.inl hs)))
    (parseLenient_rfc3339With_exact (hf.rfc3339Exact (.inr he))) hfit⟩
  rw [PartitionCodec.size_assemble]
  unfold PartitionCodec.preambleLength
  omega

end Storable

namespace FrameMap

variable {m : FrameMap} {made : String → CreatedAt} {now : CreatedAt} {name : String} {f : Frame}

/-- The bytes of a frame's file made at `now`; nothing where it cannot be written. -/
def bytesOf (now : CreatedAt) (f : Frame) : ByteArray :=
  match PartitionCodec.encode f now with
  | .ok b => b
  | .error _ => .empty

/-- The directory of a map: each entry as the file of its frame, made at the time `made` gives
its name. -/
def toDirectory (m : FrameMap) (made : String → CreatedAt) : Directory :=
  ⟨m.entries.map fun x => (x.1, .file (bytesOf (made x.1) x.2))⟩

theorem bytesOf_eq {bytes : ByteArray} (h : PartitionCodec.encode f now = .ok bytes) :
    bytesOf now f = bytes := by
  simp [bytesOf, h]

theorem lookup?_toDirectory :
    (m.toDirectory made).lookup? name = (m.lookup? name).map fun f => .file (bytesOf (made name) f) := by
  simp only [toDirectory, Directory.lookup?, lookup?, List.find?_map, Function.comp_def, Option.map_map]
  cases hx : m.entries.find? (fun x => x.1 == name) with
  | none => simp
  | some x =>
    have hn : x.1 = name := by simpa using List.find?_some hx
    simp [hn]

/-- Putting a frame made at `now` under a name puts its file there, made at `now`. -/
theorem toDirectory_put :
    (m.put name f).toDirectory (Function.update made name now) =
      (m.toDirectory made).put name (.file (bytesOf now f)) := by
  unfold put Directory.put toDirectory
  simp only [List.any_map, Function.comp_def]
  split
  · simp only [List.map_map, Function.comp_def]
    congr 1
    refine List.map_congr_left fun x _ => ?_
    by_cases hx : x.1 = name <;> simp [hx]
  · -- the name is new, so every old entry keeps its time
    rename_i hany
    simp only [List.map_append, List.map_cons, List.map_nil, Function.update_self]
    refine congrArg (fun l => (⟨l ++ [(name, .file (bytesOf now f))]⟩ : Directory))
      (List.map_congr_left fun x hx => ?_)
    have hne : x.1 ≠ name := fun h => hany (List.any_eq_true.2 ⟨x, hx, by simp [h]⟩)
    rw [Function.update_of_ne hne]

end FrameMap

open FrameMap

variable {made : String → CreatedAt} {idx : String} {sch : List (String × ColumnKind)} {c : Cache}
  {m : FrameMap}

/-- A cache holds a map of frames, each entry's file made at the time `made` gives its name: its
directory is the map's directory; the map's names are distinct; every entry is a storable frame
with the given index name and columns, under the name of its first and last timestamps; and each
was made at a time a clock can give, at which its file fits the format. -/
structure Represents (made : String → CreatedAt) (idx : String) (sch : List (String × ColumnKind))
    (c : Cache) (m : FrameMap) : Prop where
  files : c.files = m.toDirectory made
  nodup : (m.entries.map (·.1)).Nodup
  stored : ∀ x ∈ m.entries, Storable idx sch x.2 ∧
    ∃ s e, x.2.first? = some s ∧ x.2.last? = some e ∧ Partition.fileName s e = .ok x.1
  made_fits : ∀ x ∈ m.entries, (made x.1).Valid ∧ PartitionCodec.FileFits x.2 (made x.1)

namespace Represents

/-- An empty directory holds the empty map, whatever times its entries would have. -/
theorem init (hempty : c.files = .empty) (made : String → CreatedAt) : Represents made idx sch c .empty :=
  ⟨hempty, List.nodup_nil, fun _ hx => absurd hx List.not_mem_nil, fun _ hx => absurd hx List.not_mem_nil⟩

variable (hR : Represents made idx sch c m)
include hR

/-- An entry is written under the file name of its first and last timestamps, both written
exactly. -/
theorem entry {x : String × Frame} (hx : x ∈ m.entries) :
    ∃ s e, s.Rfc3339Exact ∧ e.Rfc3339Exact ∧ x.2.first? = some s ∧ x.2.last? = some e ∧
      x.1 = s.rfc3339 ++ "_" ++ e.rfc3339 ++ "." ++ Partition.extension := by
  obtain ⟨hst, s, e, hs, he, hn⟩ := hR.stored x hx
  have hes := hst.rfc3339Exact (.inl hs)
  have hee := hst.rfc3339Exact (.inr he)
  rw [Partition.fileName_eq hes hee] at hn
  exact ⟨s, e, hes, hee, hs, he, (Except.ok.inj hn).symm⟩

/-- The directory of a cache that holds a map is one a file system can hold. -/
theorem valid : c.files.Valid where
  nodup := by
    rw [hR.files, toDirectory, List.map_map]
    exact hR.nodup
  legal := by
    rw [hR.files]
    intro d hd
    obtain ⟨x, hx, rfl⟩ := List.mem_map.1 hd
    obtain ⟨s, e, hs, he, -, -, hname⟩ := hR.entry hx
    rw [hname]
    exact (Partition.checkName_fileName hs he).1

/-- The cache lists the map's partitions. -/
theorem partitions_eq : c.partitions = m.partitions := by
  rw [FrameCache.partitions_eq, hR.files, FrameMap.partitions, toDirectory, List.filterMap_map]
  congr 1
  refine List.filterMap_congr fun x hx => ?_
  obtain ⟨s, e, hs, he, hfirst, hlast, hname⟩ := hR.entry hx
  obtain ⟨n, g⟩ := x
  simp only at hname hfirst hlast
  subst hname
  rw [Function.comp_apply, Partition.partitionOf?_fileName hs he]
  simp [partitionOf, hfirst, hlast]

/-- Every entry is read back from its file as its frame. -/
theorem read {x : String × Frame} (hx : x ∈ m.entries) : ∃ h, c.read x.1 = .ok (h, x.2) := by
  obtain ⟨hst, s, e, hs, he, -⟩ := hR.stored x hx
  obtain ⟨hmade, hfit⟩ := hR.made_fits x hx
  obtain ⟨bytes, h, henc, hpos, hdec⟩ := hst.decode_file hmade hfit hs he
  have hlook : c.files.lookup? x.1 = some (.file bytes) := by
    rw [hR.files, lookup?_toDirectory, lookup?_of_mem hR.nodup hx, Option.map_some, bytesOf_eq henc]
  have hfind : c.files.find x.1 = .ok (.file bytes) :=
    Directory.find_eq_ok_iff.2 ⟨hR.valid.legal _ (Directory.mem_of_lookup?_eq_some hlook), hlook⟩
  refine ⟨h, ?_⟩
  simp [Cache.read, hfind, Nat.pos_iff_ne_zero.1 hpos, hdec, Except.mapError]

/-- A listed partition is read as the map's frame under its name: a storable frame whose rows
lie in the partition's interval. -/
theorem partition {p : PartitionFile} (hp : p ∈ m.partitions) :
    (∃ h, c.read p.name = .ok (h, m.frameOf p)) ∧ Storable idx sch (m.frameOf p) ∧
      ∀ t ∈ (m.frameOf p).index, p.start ≤ t ∧ t ≤ p.stop := by
  obtain ⟨x, hx, hpx⟩ := FrameMap.mem_partitions.1 hp
  obtain ⟨hname, hfirst, hlast⟩ := partitionOf_eq_some hpx
  have hst := (hR.stored x hx).1
  rw [frameOf_of_partitionOf hR.nodup hx hpx, hname]
  exact ⟨hR.read hx, hst, Frame.within_of_isSorted hst.sorted hfirst hlast⟩

/-- Reading partitions the map lists gives their frames. -/
theorem mapM_read {ps : List PartitionFile} (hps : ∀ p ∈ ps, p ∈ m.partitions) :
    ps.mapM (fun p => (c.read p.name).map (·.2)) = .ok (ps.map m.frameOf) := by
  refine mapM_eq_ok_map fun p hp => ?_
  obtain ⟨h, hread⟩ := (hR.partition (hps p hp)).1
  rw [hread]
  rfl

/-- A listed partition that does not meet the window has no row in it. -/
theorem outside_of_not_intersects {p : PartitionFile} {s e : Timestamp} (hp : p ∈ m.partitions)
    (hmiss : p.intersects s e = false) : ∀ t ∈ (m.frameOf p).index, ¬ (s ≤ t ∧ t ≤ e) := by
  rintro t ht ⟨hst, hte⟩
  obtain ⟨hpt, htp⟩ := (hR.partition hp).2.2 t ht
  simp only [PartitionFile.intersects, Bool.and_eq_false_iff, decide_eq_false_iff_not] at hmiss
  rcases hmiss with h | h
  · exact h (le_trans hpt hte)
  · exact h (le_trans hst htp)

/-- Reading a window gives the same answer from the cache as from the map it holds. The cache
reads only the partitions that meet the window, the map joins all its frames: the rows of the
others lie outside the window and are cut anyway. -/
theorem get_eq (start stop : Option Timestamp) (keys : Option (List String)) :
    c.get start stop keys = m.get start stop keys := by
  unfold Cache.get FrameMap.get
  rw [hR.partitions_eq]
  cases ho : oldestOf m.partitions with
  | none => simp only [ho]
  | some o =>
  cases hn : newestOf m.partitions with
  | none => simp only [ho, hn]
  | some n =>
  simp only [ho, hn]
  by_cases hes : stop.getD n < start.getD o
  · simp [hes]
  simp only [hes, if_false]
  generalize start.getD o = s, stop.getD n = e
  rw [hR.mapM_read fun p hp => (List.mem_filter.1 hp).1]
  by_cases hany : m.partitions.any (·.intersects s e)
  · -- both sides join frames of one schema: the cache those that meet the window, the map all
    have hshape : ∀ p ∈ m.partitions,
        (m.frameOf p).WellFormed ∧ (m.frameOf p).indexName = idx ∧ (m.frameOf p).schema = sch :=
      fun p hp => have hst := (hR.partition hp).2.1; ⟨hst.wellFormed, hst.indexName_eq, hst.schema_eq⟩
    have hschema (qs : List PartitionFile) (hqs : ∀ q ∈ qs, q ∈ m.partitions) :
        ∀ g ∈ qs.map m.frameOf, g.schema = sch := by
      intro g hg
      obtain ⟨q, hq, rfl⟩ := List.mem_map.1 hg
      exact (hshape q (hqs q hq)).2.2
    obtain ⟨p, hp, hpi⟩ := List.any_eq_true.1 hany
    obtain ⟨F, hF⟩ := Frame.exists_concat_of_schema (by simpa using List.ne_nil_of_mem hp)
      (hschema _ fun q hq => hq)
    have hpf : p ∈ m.partitions.filter (·.intersects s e) := List.mem_filter.2 ⟨hp, hpi⟩
    obtain ⟨G, hG⟩ := Frame.exists_concat_of_schema (by simpa using List.ne_nil_of_mem hpf)
      (hschema _ fun q hq => (List.mem_filter.1 hq).1)
    have hFG := Frame.filterRange_concat_filter m.frameOf (·.intersects s e) hshape
      (fun q hq hk => hR.outside_of_not_intersects hq hk) hF hG
    simp only [hany, hF, hG, Except.mapError, bind, Except.bind, Bool.not_true, Bool.false_eq_true,
      if_false]
    exact hFG ▸ rfl
  · have hnil : m.partitions.filter (·.intersects s e) = [] := by simpa using hany
    simp [hany, hnil, Frame.concat, Except.mapError]

/-- No subdirectory stands anywhere in the cache's directory. -/
theorem lookup?_ne_folder (name : String) : c.files.lookup? name ≠ some .folder := by
  rw [hR.files, lookup?_toDirectory]
  cases m.lookup? name <;> simp

/-- No entry of the map is named as the temporary file of a partition. -/
theorem lookup?_tmp (name : String) : m.lookup? ("." ++ name ++ ".tmp") = none := by
  refine FrameMap.lookup?_eq_none fun x hx hname => ?_
  obtain ⟨-, s, e, -, -, hn⟩ := hR.stored x hx
  exact Partition.tmp_ne_fileName hn name hname.symm

end Represents

namespace PartitionCodec

/-- The nanosecond counts of an index stop at its first timestamp beyond the range. -/
theorem indexNanos_of_find? {f : Frame} {t : Timestamp}
    (h : f.index.toList.find? (·.toNanos?.isNone) = some t) :
    indexNanos f = .error (.timestampOutOfRange t) := by
  unfold indexNanos
  generalize f.index.toList = l at h
  induction l with
  | nil => cases h
  | cons x l ih =>
    cases hx : x.toNanos? with
    | none =>
      rw [List.find?_cons_of_pos (by simp [hx])] at h
      cases h
      simp [List.mapM_cons, hx, bind, Except.bind]
    | some n =>
      rw [List.find?_cons_of_neg (by simp [hx])] at h
      simp [List.mapM_cons, hx, ih h, bind, Except.bind]

end PartitionCodec

namespace Cache

variable {f : Frame} {s e : Timestamp}

/-- Storing a frame without a first or last timestamp is refused and changes nothing. -/
theorem store_of_empty {now : CreatedAt} (h : f.first? = none ∨ f.last? = none) (c : Cache) :
    store now f c = .error .emptyFrame c := by
  unfold store
  rcases h with h | h
  · rw [h]
    rfl
  · rw [h]
    cases f.first? <;> rfl

/-- Storing a frame whose first and last timestamps cannot be written as a name is a fault
and changes nothing. -/
theorem store_of_fault {now : CreatedAt} {x : Fault} (hs : f.first? = some s) (he : f.last? = some e)
    (hn : Partition.fileName s e = .error x) (c : Cache) : store now f c = .error (.fault x) c := by
  unfold store
  rw [hs, he]
  simp only [bind, EStateM.bind, getThe, MonadStateOf.get, EStateM.get, hn]
  rfl

/-- Storing a frame with a timestamp beyond the nanosecond range is refused with the first such
timestamp and changes nothing. -/
theorem store_of_outOfRange {now : CreatedAt} {name : String} {t : Timestamp} (hs : f.first? = some s)
    (he : f.last? = some e) (hn : Partition.fileName s e = .ok name)
    (ht : f.index.toList.find? (·.toNanos?.isNone) = some t) (c : Cache) :
    store now f c = .error (.timestampOutOfRange t) c := by
  have henc : PartitionCodec.encode f now = .error (.timestampOutOfRange t) := by
    simp only [PartitionCodec.encode, hs, he, PartitionCodec.indexNanos_of_find? ht, bind, Except.bind]
  unfold store
  rw [hs, he]
  simp only [bind, EStateM.bind, getThe, MonadStateOf.get, EStateM.get, hn, henc]
  rfl

end Cache

namespace Storable

variable {f : Frame} {s e : Timestamp} {name : String}

/-- The file name of a storable frame and its temporary name are legal. -/
theorem checkName_fileName (hf : Storable idx sch f) (hs : f.first? = some s) (he : f.last? = some e)
    (hn : Partition.fileName s e = .ok name) :
    Directory.checkName name = .ok () ∧ Directory.checkName ("." ++ name ++ ".tmp") = .ok () := by
  have hes := hf.rfc3339Exact (.inl hs)
  have hee := hf.rfc3339Exact (.inr he)
  rw [Partition.fileName_eq hes hee, Except.ok.injEq] at hn
  rw [← hn]
  exact Partition.checkName_fileName hes hee

end Storable

namespace Represents

variable {f : Frame} {s e : Timestamp} {name : String} {now : CreatedAt}
variable (hR : Represents made idx sch c m)
include hR

/-- Storing a storable frame at a time a clock can give, at which its file fits, writes its file
under its name, and the cache then holds the map with the frame put under that name, made at
that time. -/
theorem store_put (hst : Storable idx sch f) (hnow : now.Valid) (hfit : PartitionCodec.FileFits f now)
    (hs : f.first? = some s) (he : f.last? = some e) (hn : Partition.fileName s e = .ok name) :
    ∃ c', Cache.store now f c = .ok ⟨name, s, e⟩ c' ∧
      Represents (Function.update made name now) idx sch c' (m.put name f) := by
  obtain ⟨bytes, -, henc, -, -⟩ := hst.decode_file hnow hfit hs he
  obtain ⟨hname, htmp⟩ := hst.checkName_fileName hs he hn
  let w : Directory.Install := ⟨"." ++ name ++ ".tmp", name, bytes⟩
  have hw : Cache.Writes f now w := ⟨⟨s, e, hs, he, hn⟩, rfl, henc, htmp, hname⟩
  have hfolder : c.files.NoFolderAt [w] := by
    intro w' hw'
    rw [List.mem_singleton.1 hw']
    exact ⟨hR.lookup?_ne_folder _, hR.lookup?_ne_folder _⟩
  refine ⟨_, Cache.store_of_writes hw hs he hfolder, ?_⟩
  -- the temporary name is free, so installing is putting the file under the name
  have hfiles : c.files.install w = (m.put name f).toDirectory (Function.update made name now) := by
    have hfree : c.files.lookup? w.tmp = none := by
      rw [hR.files, lookup?_toDirectory, hR.lookup?_tmp]
      rfl
    rw [Directory.install, Directory.erase_of_lookup?_eq_none hfree, toDirectory_put, bytesOf_eq henc, hR.files]
  refine ⟨hfiles, ?_, fun x hx => ?_, fun x hx => ?_⟩
  · rw [names_put]
    split
    · exact hR.nodup
    · rename_i hany
      rw [List.nodup_append]
      refine ⟨hR.nodup, List.nodup_singleton _, ?_⟩
      simp only [List.mem_map, List.mem_singleton]
      rintro _ ⟨x, hx, rfl⟩ _ rfl
      exact any_eq_false_iff.1 (Bool.eq_false_iff.2 hany) x hx
  · rcases mem_put hx with rfl | ⟨hx, -⟩
    · exact ⟨hst, s, e, hs, he, hn⟩
    · exact hR.stored x hx
  · -- the entry put is made now; every other keeps its time
    rcases mem_put hx with rfl | ⟨hx, hne⟩
    · rw [Function.update_self]
      exact ⟨hnow, hfit⟩
    · rw [Function.update_of_ne hne]
      exact hR.made_fits x hx

/-- A store that the cache and the map refuse with one error changes neither. -/
theorem store_refused {err : CacheError} (hc : Cache.store now f c = .error err c) (hm : m.store f = (.error err, m)) :
    (Cache.answer (Cache.store now f) c).1 = (m.store f).1 ∧
      ∃ made', Represents made' idx sch (Cache.answer (Cache.store now f) c).2 (m.store f).2 := by
  simp only [Cache.answer, hc, hm, true_and]
  exact ⟨made, hR⟩

/-- Storing an admissible frame at a time a clock can give answers as the map does, and the cache
then holds the map afterwards: a refusal changes neither. -/
theorem store_step (hnow : now.Valid) (hf : Admissible now idx sch f) :
    (Cache.answer (Cache.store now f) c).1 = (m.store f).1 ∧
      ∃ made', Represents made' idx sch (Cache.answer (Cache.store now f) c).2 (m.store f).2 := by
  cases hs : f.first? with
  | none => exact hR.store_refused (Cache.store_of_empty (.inl hs) c) (by simp [FrameMap.store, hs])
  | some s =>
  cases he : f.last? with
  | none => exact hR.store_refused (Cache.store_of_empty (.inr he) c) (by simp [FrameMap.store, hs, he])
  | some e =>
  cases hn : Partition.fileName s e with
  | error x => exact hR.store_refused (Cache.store_of_fault hs he hn c) (by simp [FrameMap.store, hs, he, hn])
  | ok name =>
  cases ht : f.index.toList.find? (·.toNanos?.isNone) with
  | some t =>
    exact hR.store_refused (Cache.store_of_outOfRange hs he hn ht c) (by simp [FrameMap.store, hs, he, hn, ht])
  | none =>
    -- an admissible frame with a first timestamp and none out of range is storable
    have hst : Storable idx sch f ∧ PartitionCodec.FileFits f now := by
      rcases hf with h0 | ⟨t, htm, hnone⟩ | hst
      · simp [Frame.first?, h0] at hs
      · have := List.find?_eq_none.1 ht t (Array.mem_toList_iff.2 htm)
        simp [hnone] at this
      · exact hst
    obtain ⟨c', hstore, hR'⟩ := hR.store_put hst.1 hnow hst.2 hs he hn
    simp only [Cache.answer, hstore, FrameMap.store, hs, he, hn, ht, true_and]
    exact ⟨_, hR'⟩

/-- Every entry of the map has a partition. -/
theorem partitionOf_entry {x : String × Frame} (hx : x ∈ m.entries) : ∃ p, partitionOf x = some p := by
  obtain ⟨-, s, e, hs, he, -⟩ := hR.stored x hx
  exact ⟨⟨x.1, s, e⟩, by simp [partitionOf, hs, he]⟩

/-- Removing the files of some of the listed partitions leaves a cache that holds the map
without their entries. -/
theorem without (keep : PartitionFile → Bool) :
    Represents made idx sch (c.without (m.partitions.filter keep))
      ⟨m.entries.filter fun x => !(partitionOf x).any keep⟩ := by
  -- an entry's file is removed exactly when `keep` keeps its partition
  have hkeep : ∀ x ∈ m.entries,
      decide (x.1 ∉ (m.partitions.filter keep).map (·.name)) = !(partitionOf x).any keep := by
    intro x hx
    obtain ⟨p, hp⟩ := hR.partitionOf_entry hx
    rw [hp, Option.any_some]
    simp [name_mem_filter_partitions hR.nodup hx hp keep]
  refine ⟨?_, hR.nodup.sublist (List.filter_sublist.map _),
    fun x hx => hR.stored x (List.mem_of_mem_filter hx), fun x hx => hR.made_fits x (List.mem_of_mem_filter hx)⟩
  simp only [Cache.without]
  rw [hR.files, toDirectory, toDirectory, Directory.without, List.filter_map]
  congr 1
  exact congrArg _ (List.filter_congr hkeep)

/-- The partitions within a window are those the map counts as inside it. -/
theorem within_eq (start stop : Option Timestamp) :
    c.within start stop = m.partitions.filter (m.inside start stop) := by
  unfold Cache.within FrameMap.inside FrameMap.oldest FrameMap.newest
  rw [hR.partitions_eq]
  cases ho : oldestOf m.partitions with
  | none => simp [oldestOf_eq_none_iff.1 ho]
  | some o =>
    cases hn : newestOf m.partitions with
    | none => simp [newestOf_eq_none_iff.1 hn]
    | some n => exact List.filter_congr fun p hp => (containedIn_getD ho hn hp).symm

/-- Dropping a window answers as the map does, and the cache then holds the map afterwards. -/
theorem dropRange_step (start stop : Option Timestamp) :
    (Cache.answer (Cache.dropRange start stop) c).1 = (m.dropRange start stop).1 ∧
      Represents made idx sch (Cache.answer (Cache.dropRange start stop) c).2 (m.dropRange start stop).2 := by
  cases hw : windowError? start stop with
  | some err =>
    obtain ⟨a, b, rfl, rfl, hba, rfl⟩ := windowError?_eq_some hw
    simp only [Cache.answer, Cache.dropRange_of_le hba, FrameMap.dropRange, hw, true_and]
    exact hR
  | none =>
    simp only [Cache.answer, Cache.dropRange_within hR.valid (windowError?_eq_none hw), FrameMap.dropRange,
      hw, hR.within_eq, true_and]
    exact hR.without _

/-- Every request, a store only of a frame admissible at its time, a time a clock can give, is
answered by the cache as by the map, and the cache then holds the map afterwards. -/
theorem apply_step (op : CacheOp) (hop : ∀ now f, op = .store now f → now.Valid ∧ Admissible now idx sch f) :
    (c.apply op).1 = (m.apply op).1 ∧ ∃ made', Represents made' idx sch (c.apply op).2 (m.apply op).2 := by
  cases op with
  | store now f =>
    obtain ⟨hnow, hf⟩ := hop now f rfl
    obtain ⟨hans, hR'⟩ := hR.store_step hnow hf
    exact ⟨congrArg CacheReply.stored hans, hR'⟩
  | dropRange start stop =>
    obtain ⟨hans, hR'⟩ := hR.dropRange_step start stop
    exact ⟨congrArg CacheReply.dropped hans, _, hR'⟩
  | clear =>
    obtain ⟨hans, hR'⟩ := hR.dropRange_step none none
    exact ⟨congrArg CacheReply.dropped hans, _, hR'⟩
  | partitions => exact ⟨congrArg CacheReply.partitions hR.partitions_eq, _, hR⟩
  | oldest => exact ⟨congrArg (CacheReply.time ∘ oldestOf) hR.partitions_eq, _, hR⟩
  | newest => exact ⟨congrArg (CacheReply.time ∘ newestOf) hR.partitions_eq, _, hR⟩
  | get start stop keys => exact ⟨congrArg CacheReply.read (hR.get_eq start stop keys), _, hR⟩

end Represents

/-- From an empty directory, over any sequence of requests whose stores are each made at a time a
clock can give, of a frame admissible at that time, the cache answers every request as the map
of its frames does, and afterwards holds that map, each entry's file made at the time it was
stored. -/
theorem Cache.runOps_refines {c : Cache} {idx : String} {sch : List (String × ColumnKind)}
    (hempty : c.files = .empty) (ops : List CacheOp)
    (hops : ∀ now f, CacheOp.store now f ∈ ops → now.Valid ∧ Admissible now idx sch f) :
    (runOps Cache.apply c ops).1 = (runOps FrameMap.apply .empty ops).1 ∧
      ∃ made, Represents made idx sch (runOps Cache.apply c ops).2 (runOps FrameMap.apply .empty ops).2 :=
  runOps_sim (fun c m => ∃ made, Represents made idx sch c m)
    (fun op => ∀ now f, op = .store now f → now.Valid ∧ Admissible now idx sch f)
    (fun _ _ op ⟨_, hR⟩ hop => hR.apply_step op hop) ops c .empty
    ⟨fun _ => ⟨0, 0⟩, Represents.init hempty _⟩ fun _ hop now f hf => hops now f (hf ▸ hop)

/-- The row at the epoch is storable. -/
theorem storable_epochRow : Storable "time" [] Fetch.epochRow where
  wellFormed := ⟨by simp [Fetch.epochRow], by decide⟩
  indexName_eq := rfl
  schema_eq := rfl
  sorted := by decide
  inRange := by decide
  noLeap := by decide
  wholeMinutes := by
    rintro t (h | h) <;> cases h <;> rfl

/-- Requests on a fresh cache: store the row at the epoch at 2023-11-14T22:13:20Z, list, read
everything, store an empty frame, drop everything and ask for the newest time. -/
def epochRowOps : List CacheOp :=
  [.store ⟨1700000000, 0⟩ Fetch.epochRow, .partitions, .get none none none, .store ⟨1700000000, 0⟩ {},
    .dropRange none none, .newest]

theorem runOps_refines_epochRow :
    (Fetch.freshState.cache.files = .empty ∧
      ∀ now f, CacheOp.store now f ∈ epochRowOps → now.Valid ∧ Admissible now "time" [] f) ∧
    (runOps Cache.apply Fetch.freshState.cache epochRowOps).1 = (runOps FrameMap.apply FrameMap.empty epochRowOps).1 ∧
      ∃ made, Represents made "time" []
        (runOps Cache.apply Fetch.freshState.cache epochRowOps).2 (runOps FrameMap.apply FrameMap.empty epochRowOps).2 := by
  have hops : ∀ now f, CacheOp.store now f ∈ epochRowOps → now.Valid ∧ Admissible now "time" [] f := by
    intro now f hf
    simp only [epochRowOps, List.mem_cons, CacheOp.store.injEq, reduceCtorEq, List.not_mem_nil,
      false_or, or_false] at hf
    rcases hf with ⟨rfl, rfl⟩ | ⟨rfl, rfl⟩
    · exact ⟨by decide, .inr (.inr ⟨storable_epochRow, Fetch.fileFits_epochRow.2⟩)⟩
    · exact ⟨by decide, .inl rfl⟩
  exact ⟨⟨rfl, hops⟩, Cache.runOps_refines rfl epochRowOps hops⟩

/-- A timestamp in the last representable hour of the time line, one hour east of UTC: its local
time lies past the last supported year. -/
def farFuture : Timestamp := (Timestamp.ofParts? 8210266873200 0 ((Offset.ofSeconds? 3600).getD default)).getD default

/-- One row at `farFuture`. -/
def farFutureFrame : Frame := ⟨"time", #[farFuture], []⟩

/-- A frame whose only timestamp lies beyond the nanosecond range, and past the last year its
local time can be written in, is not refused for its range: naming its partition fails first,
and storing it in a fresh cache, at any time, is a fault that leaves the cache as it was. -/
theorem store_farFuture_faults :
    (∃ t ∈ farFutureFrame.index, t.toNanos? = none) ∧
      Cache.store ⟨1700000000, 0⟩ farFutureFrame Fetch.freshState.cache =
        .error (.fault .localTimeOutOfRange) Fetch.freshState.cache :=
  ⟨⟨farFuture, by simp [farFutureFrame], by decide⟩,
    Cache.store_of_fault rfl rfl (by decide) Fetch.freshState.cache⟩

/-! ## Statistics of a cache that holds a map -/

namespace Represents

variable (hR : Represents made idx sch c m)
include hR

/-- Whatever a listed partition is read as is the map's frame under its name. -/
theorem eq_frameOf_of_read {p : PartitionFile} {h} {f : Frame} (hp : p ∈ c.partitions)
    (hread : c.read p.name = .ok (h, f)) : p ∈ m.partitions ∧ f = m.frameOf p := by
  rw [hR.partitions_eq] at hp
  obtain ⟨h', hread'⟩ := (hR.partition hp).1
  rw [hread'] at hread
  exact ⟨hp, (Prod.mk.inj (Except.ok.inj hread)).2.symm⟩

/-- A cache that holds a map is well stored: every listed partition reads as the map's frame,
of the one schema of the map, with its rows in the partition's interval. -/
theorem wellStored : c.WellStored where
  reads p hp := by
    rw [hR.partitions_eq] at hp
    obtain ⟨h, hread⟩ := (hR.partition hp).1
    exact ⟨h, _, hread⟩
  schema := ⟨sch, fun p hp h f hread => by
    obtain ⟨hp, rfl⟩ := hR.eq_frameOf_of_read hp hread
    exact (hR.partition hp).2.1.schema_eq⟩
  within p hp h f hread := by
    obtain ⟨hp, rfl⟩ := hR.eq_frameOf_of_read hp hread
    exact (hR.partition hp).2.2

end Represents

namespace Cache

/-- The statistics read from headers alone agree with a full read. For any bytes, reading
only the header succeeds exactly when splitting the whole file does, with the same header. In
a cache whose partitions all read, share one schema and hold rows only within their named
intervals, the statistics count the listed partitions, give the oldest start and the newest
end, and count the rows that getting everything returns, none for no answer; a count beyond
`maxRowCount` is refused as an overflow. -/
theorem stats_agrees_with_get (c : Cache) (hw : c.WellStored) :
    (∀ bytes h, PartitionCodec.readHeader bytes = .ok h ↔ ∃ body, PartitionCodec.split bytes = .ok (h, body)) ∧
    ∃ g, c.get none none none = .ok g ∧
      c.stats = if rowCount g > maxRowCount then .error .addOverflow
        else .ok { files := c.partitions.length, rows := rowCount g, oldest := c.oldest,
                   newest := c.newest } := by
  refine ⟨fun _ _ => PartitionCodec.readHeader_eq_ok_iff, ?_⟩
  obtain ⟨g, hg, hrows⟩ := get_all hw
  exact ⟨g, hg, by rw [stats_eq, hrows]⟩

/-- A fresh cache after the row at the epoch was stored at 2023-11-14T22:13:20Z. -/
def epochRowCache : Cache := (Cache.answer (Cache.store ⟨1700000000, 0⟩ Fetch.epochRow) Fetch.freshState.cache).2

theorem stats_agrees_with_get_epochRow :
    epochRowCache.partitions.length = 1 ∧ epochRowCache.WellStored ∧
      ((∀ bytes h, PartitionCodec.readHeader bytes = .ok h ↔ ∃ body, PartitionCodec.split bytes = .ok (h, body)) ∧
      ∃ g, epochRowCache.get none none none = .ok g ∧
        epochRowCache.stats = if rowCount g > maxRowCount then .error .addOverflow
          else .ok { files := epochRowCache.partitions.length, rows := rowCount g,
                     oldest := epochRowCache.oldest, newest := epochRowCache.newest }) := by
  -- the fresh cache holds the empty map, and storing the row puts it there
  have h0 : Represents (fun _ => ⟨0, 0⟩) "time" [] Fetch.freshState.cache .empty := Represents.init rfl _
  obtain ⟨c, hstore, hR⟩ := h0.store_put storable_epochRow (by decide : CreatedAt.Valid ⟨1700000000, 0⟩)
    Fetch.fileFits_epochRow.2 rfl rfl
    (by decide : Partition.fileName Timestamp.epoch Timestamp.epoch = .ok Fetch.epochRowWrite.name)
  have hc : epochRowCache = c := by simp [epochRowCache, Cache.answer, hstore]
  rw [hc]
  have hw := hR.wellStored
  have hone : c.partitions.length = 1 := by
    rw [hR.partitions_eq, FrameMap.partitions, List.length_mergeSort]
    rfl
  exact ⟨hone, hw, stats_agrees_with_get c hw⟩

end Cache

end FrameCache
