import Mathlib
import FrameCache.Proofs.Frames
import FrameCache.Proofs.Listing

/-!
# Statistics from headers agree with a full read

`Cache.stats` reads only the header of each partition: `PartitionCodec.readHeader` takes the
preamble, checks the header length against the size of the file and splits the preamble and
header alone. Whatever the bytes, it accepts exactly the files that splitting the whole file
accepts, with the same header (`readHeader_eq_ok_iff`): the header length is checked before
the magic and the version, but a file refused by one check is refused by the other.

A full decode reads as many index samples as the header counts rows, so the frame of a
partition has the header's number of rows (`decode_eq_ok`). In a cache whose partitions all
read, share one schema and hold rows only within their named intervals (`Cache.WellStored`),
getting everything reads every partition that can hold rows, keeps every row and adds nothing,
so its rows are the sum of the headers' counts (`Cache.get_all`).
-/

namespace FrameCache

namespace Gorilla

theorem length_decode_go {d : GorillaDecoder} {k : Nat} {acc : Array Sample} {ss : List Sample}
    (h : decode.go d k acc = .ok ss) : ss.length = acc.size + k := by
  induction k generalizing d acc with
  | zero =>
    simp only [decode.go, Except.ok.injEq] at h
    simp [← h]
  | succ k ih =>
    rw [decode.go, Except.bind_eq_ok] at h
    obtain ⟨⟨s, d'⟩, -, hgo⟩ := h
    rw [ih hgo, Array.size_push]
    omega

end Gorilla

namespace PartitionCodec

theorem u32Of_take (bs : List UInt8) {k : Nat} (hk : 4 ≤ k) : u32Of (bs.take k) = u32Of bs := by
  simp [u32Of, List.take_take, Nat.min_eq_left hk]

/-- The preamble and header of a file split into the header the whole file splits into, and
fail as it fails. -/
theorem split_map_fst_extract {bs : Array UInt8}
    (hl : preambleLength + u32Of (bs.toList.drop 5) ≤ bs.size) :
    (split ⟨bs.extract 0 (preambleLength + u32Of (bs.toList.drop 5))⟩).map Prod.fst =
      (split ⟨bs⟩).map Prod.fst := by
  set n := preambleLength + u32Of (bs.toList.drop 5) with hn
  have h9 : preambleLength ≤ n := Nat.le_add_right _ _
  have h4 : 4 < min n bs.size := by unfold preambleLength at h9; omega
  -- the prefix has the whole file's magic, version, header length and header bytes
  have hsize : (bs.extract 0 n).size = n := by simp; omega
  have htake : (bs.extract 0 n).toList.take 4 = bs.toList.take 4 := by
    simp [List.take_take]
    omega
  have hget : (bs.extract 0 n).getD 4 0 = bs.getD 4 0 := by
    simp [h4, Array.getElem?_eq_getElem (show 4 < bs.size by omega)]
  have hu32 : u32Of ((bs.extract 0 n).toList.drop 5) = u32Of (bs.toList.drop 5) := by
    simp only [Array.toList_extract, List.extract_eq_take_drop, List.drop_zero, Nat.sub_zero]
    rw [List.drop_take]
    exact u32Of_take _ (by unfold preambleLength at h9; omega)
  have hhdr : (bs.extract 0 n).extract preambleLength n = bs.extract preambleLength n := by
    simp
  have hs : ¬ bs.size < preambleLength := by omega
  simp only [split, hsize, htake, hget, hu32, ← hn, hhdr, Nat.lt_irrefl, Nat.not_lt.2 h9, hs,
    decide_false, Bool.false_or, gt_iff_lt, Nat.not_lt.2 hl, if_false]
  by_cases hm : (List.take 4 bs.toList != magic) = true
  · simp only [hm, if_true]
    rfl
  · by_cases hv : (bs.getD 4 0 != version) = true
    · simp only [hm, hv, if_true]
      rfl
    · simp only [hm, hv]
      cases PartitionHeader.read { data := bs.extract preambleLength n } <;> rfl

theorem split_ne_ok_of_lt {bs : Array UInt8} (hl : bs.size < preambleLength + u32Of (bs.toList.drop 5))
    (r : PartitionHeader × Array UInt8) : split ⟨bs⟩ ≠ .ok r := by
  simp only [split, gt_iff_lt, hl, if_true]
  by_cases hm : (decide (bs.size < preambleLength) || List.take 4 bs.toList != magic) = true
  · simp [hm, throw, throwThe, MonadExceptOf.throw, bind, Except.bind]
  · simp [hm, throw, throwThe, MonadExceptOf.throw, bind, Except.bind]
    split <;> simp

/-- Reading only the header succeeds exactly when splitting the whole file does, with the
same header. -/
theorem readHeader_eq_ok_iff {bytes : ByteArray} {h : PartitionHeader} :
    readHeader bytes = .ok h ↔ ∃ body, split bytes = .ok (h, body) := by
  obtain ⟨bs⟩ := bytes
  by_cases hs : bs.size < preambleLength
  · have hsplit : ∀ r, split ⟨bs⟩ ≠ .ok r := by
      intro r
      simp [split, hs, throw, throwThe, MonadExceptOf.throw, bind, Except.bind]
    simp [readHeader, hs, hsplit, throw, throwThe, MonadExceptOf.throw, bind, Except.bind]
  by_cases hl : bs.size < preambleLength + u32Of (bs.toList.drop 5)
  · simp [readHeader, hs, hl, split_ne_ok_of_lt hl, throw, throwThe, MonadExceptOf.throw, bind,
      Except.bind]
  rw [← Except.map_fst_eq_ok_iff, ← split_map_fst_extract (Nat.not_lt.1 hl)]
  simp only [readHeader, hs, gt_iff_lt, hl, if_false]
  cases split ⟨bs.extract 0 (preambleLength + u32Of (bs.toList.drop 5))⟩ with
  | error e => simp [Except.map, throw, throwThe, MonadExceptOf.throw]
  | ok r => simp [Except.map, pure, Except.pure]

theorem length_samples {data : Array UInt8} {n : Nat} {ss : List Sample} (h : samples data n = .ok ss) :
    ss.length = n := by
  unfold samples at h
  split at h
  · rename_i hd
    cases h
    unfold Gorilla.decode at hd
    dsimp only at hd
    split at hd
    · cases hd
    · simpa using Gorilla.length_decode_go hd
  all_goals cases h

/-- A decoded partition carries the header its file splits into, and as many rows as the
header counts. -/
theorem decode_eq_ok {bytes : ByteArray} {h : PartitionHeader} {f : Frame}
    (hd : decode bytes = .ok (h, f)) : (∃ body, split bytes = .ok (h, body)) ∧ f.size = h.rows := by
  unfold decode at hd
  rw [Except.bind_eq_ok] at hd
  obtain ⟨⟨h', body⟩, hs, hd⟩ := hd
  simp only [Except.bind_eq_ok] at hd
  obtain ⟨data, -, ss, hss, index, hidx, cols, -, hd⟩ := hd
  split at hd
  · rename_i f' hparts
    cases hd
    refine ⟨⟨body, hs⟩, ?_⟩
    rw [Frame.size, Frame.index_ofParts hparts, List.size_toArray,
      (mapM_eq_ok_iff.1 hidx).length_eq.symm, length_samples hss]
  · cases hd

end PartitionCodec

open PartitionCodec

namespace Cache

theorem read_eq_ok {c : Cache} {name : String} {h : PartitionHeader} {f : Frame}
    (hr : c.read name = .ok (h, f)) :
    ∃ data, c.files.find name = .ok (.file data) ∧ decode data = .ok (h, f) := by
  unfold read at hr
  split at hr
  · cases hr
  · cases hr
  · rename_i data hfind
    split at hr
    · cases hr
    · refine ⟨data, hfind, ?_⟩
      cases hd : decode data <;> simp_all [Except.mapError]

/-- A partition that reads whole has its header read alone. -/
theorem readMeta_of_read {c : Cache} {name : String} {h : PartitionHeader} {f : Frame}
    (hr : c.read name = .ok (h, f)) : c.readMeta name = .ok h := by
  obtain ⟨data, hfind, hd⟩ := read_eq_ok hr
  have hh : readHeader data = .ok h := readHeader_eq_ok_iff.2 (decode_eq_ok hd).1
  simp [readMeta, hfind, hh]

/-- The rows a partition's header counts, as the statistics add them up; a header that cannot
be read counts none. -/
def headerRows (c : Cache) (p : PartitionFile) : Nat :=
  ((c.readMeta p.name).toOption.map (·.rows)).getD 0

/-- The statistics count the partitions, bound them by the oldest start and the newest end,
and add up their headers' rows, refusing a sum beyond `maxRowCount`. -/
theorem stats_eq (c : Cache) : c.stats =
    if (c.partitions.map c.headerRows).sum > maxRowCount then .error .addOverflow
    else .ok { files := c.partitions.length, rows := (c.partitions.map c.headerRows).sum,
               oldest := c.oldest, newest := c.newest } := by
  have hfold := foldlM_add_le (fun p : PartitionFile => ((c.readMeta p.name).toOption.map (·.rows)).getD 0)
    maxRowCount Fault.addOverflow c.partitions (Nat.zero_le _)
  simp only [Nat.zero_add] at hfold
  have hg : c.headerRows = fun p => ((c.readMeta p.name).toOption.map (·.rows)).getD 0 := rfl
  unfold stats
  rw [hg]
  dsimp only
  rw [hfold]
  by_cases hover : (c.partitions.map fun p => ((c.readMeta p.name).toOption.map (·.rows)).getD 0).sum >
      maxRowCount
  · simp only [hover, if_true]
    rfl
  · simp only [hover, if_false]
    rfl

/-- A cache whose every partition can be read, all of one schema, each holding rows only
within the interval its name gives. -/
structure WellStored (c : Cache) : Prop where
  reads : ∀ p ∈ c.partitions, ∃ h f, c.read p.name = .ok (h, f)
  schema : ∃ sch, ∀ p ∈ c.partitions, ∀ h f, c.read p.name = .ok (h, f) → f.schema = sch
  within : ∀ p ∈ c.partitions, ∀ h f, c.read p.name = .ok (h, f) →
    ∀ t ∈ f.index, p.start ≤ t ∧ t ≤ p.stop

/-- The frame a partition holds, as reading it finds it. -/
def frameOf (c : Cache) (p : PartitionFile) : Frame :=
  match c.read p.name with
  | .ok r => r.2
  | .error _ => {}

/-- The number of rows of an answer; no answer has none. -/
def rowCount (g : Option Frame) : Nat := (g.map Frame.size).getD 0

section WellStored

variable {c : Cache} (hw : c.WellStored) {p : PartitionFile}
include hw

theorem read_frameOf (hp : p ∈ c.partitions) : ∃ h, c.read p.name = .ok (h, c.frameOf p) := by
  obtain ⟨h, f, hr⟩ := hw.reads p hp
  exact ⟨h, by simp [frameOf, hr]⟩

theorem headerRows_eq (hp : p ∈ c.partitions) : c.headerRows p = (c.frameOf p).size := by
  obtain ⟨h, hr⟩ := read_frameOf hw hp
  obtain ⟨data, -, hd⟩ := read_eq_ok hr
  simp [headerRows, readMeta_of_read hr, Except.toOption, (decode_eq_ok hd).2]

theorem frameOf_within (hp : p ∈ c.partitions) :
    ∀ t ∈ (c.frameOf p).index, p.start ≤ t ∧ t ≤ p.stop := by
  obtain ⟨h, hr⟩ := read_frameOf hw hp
  exact hw.within p hp h _ hr

/-- A partition whose name's interval is empty holds no rows. -/
theorem size_frameOf_eq_zero (hp : p ∈ c.partitions) (hlt : p.stop < p.start) :
    (c.frameOf p).size = 0 := by
  by_contra hne
  have hi : 0 < (c.frameOf p).index.size := Nat.pos_of_ne_zero hne
  obtain ⟨hs, he⟩ := frameOf_within hw hp _ (Array.getElem_mem hi)
  exact absurd (le_trans hs he) (not_le_of_gt hlt)

/-- A partition that does not meet the window from the oldest start to the newest end holds
no rows. -/
theorem headerRows_eq_zero {o n : Timestamp} (ho : oldestOf c.partitions = some o)
    (hn : newestOf c.partitions = some n) (hp : p ∈ c.partitions) (hq : p.intersects o n = false) :
    c.headerRows p = 0 := by
  rw [headerRows_eq hw hp]
  rcases Timestamp.lt_or_le p.stop p.start with hlt | hle
  · exact size_frameOf_eq_zero hw hp hlt
  · have : p.intersects o n = true := by
      simp only [PartitionFile.intersects, Bool.and_eq_true, decide_eq_true_eq]
      exact ⟨le_trans hle (le_newestOf hn p hp), le_trans (oldestOf_le ho p hp) hle⟩
    rw [this] at hq
    cases hq

/-- Joining the frames of partitions of the cache and keeping the rows from the oldest start
to the newest end loses no row: every row lies in its partition's interval. -/
theorem size_sortByIndex_joined {o n : Timestamp} (ho : oldestOf c.partitions = some o)
    (hn : newestOf c.partitions = some n) {qs : List PartitionFile} (hmem : ∀ p ∈ qs, p ∈ c.partitions)
    {F : Frame} (hidx : F.index.toList = (qs.map c.frameOf).flatMap (·.index.toList)) :
    ((F.filterRange o n).sortByIndex).size = (qs.map fun p => (c.frameOf p).size).sum := by
  have hwithin : ∀ t ∈ F.index, o ≤ t ∧ t ≤ n := by
    intro t ht
    rw [← Array.mem_toList_iff, hidx, List.flatMap_map, List.mem_flatMap] at ht
    obtain ⟨p, hp, ht⟩ := ht
    obtain ⟨hs, he⟩ := frameOf_within hw (hmem p hp) t (Array.mem_toList_iff.1 ht)
    exact ⟨le_trans (oldestOf_le ho p (hmem p hp)) hs, le_trans he (le_newestOf hn p (hmem p hp))⟩
  rw [Frame.size_sortByIndex, Frame.size_filterRange_of_within hwithin, Frame.size,
    ← Array.length_toList, hidx, List.flatMap_map, List.length_flatMap]
  rfl

/-- Getting everything returns as many rows as the headers count. -/
theorem get_all : ∃ g, c.get none none none = .ok g ∧ rowCount g = (c.partitions.map c.headerRows).sum := by
  unfold get
  cases ho : oldestOf c.partitions with
  | none =>
    have hnil := oldestOf_eq_none_iff.1 ho
    refine ⟨none, ?_, by simp [rowCount, hnil]⟩
    simp only [ho]
    rfl
  | some o =>
    obtain ⟨n, hn⟩ : ∃ n, newestOf c.partitions = some n := by
      cases hn : newestOf c.partitions with
      | none => rw [oldestOf_eq_none_iff.2 (newestOf_eq_none_iff.1 hn)] at ho; cases ho
      | some n => exact ⟨n, rfl⟩
    simp only [ho, hn, Option.getD_none]
    by_cases hno : n < o
    · refine ⟨none, by simp [hno, pure, Except.pure], ?_⟩
      -- with the window empty every partition's interval is empty, so none holds rows
      have hzero : ∀ p ∈ c.partitions, c.headerRows p = 0 := by
        intro p hp
        rw [headerRows_eq hw hp]
        exact size_frameOf_eq_zero hw hp
          (lt_of_le_of_lt (le_newestOf hn p hp) (lt_of_lt_of_le hno (oldestOf_le ho p hp)))
      refine (List.sum_eq_zero_iff_forall_eq_nat.2 ?_).symm
      simpa using hzero
    · simp only [if_neg hno]
      have hframes : ∀ qs ⊆ c.partitions,
          qs.mapM (fun p => (c.read p.name).map (·.2)) = .ok (qs.map c.frameOf) := by
        intro qs hqs
        refine mapM_eq_ok_map fun p hp => ?_
        obtain ⟨h, hr⟩ := read_frameOf hw (hqs hp)
        simp [hr, Except.map]
      rw [hframes _ (List.filter_subset_self _)]
      -- the partitions left out hold no rows, so the total is that of those read
      have hsum : (c.partitions.map c.headerRows).sum =
          ((c.partitions.filter fun p => p.intersects o n).map fun p => (c.frameOf p).size).sum := by
        rw [← sum_map_filter_of_eq_zero (q := fun p => p.intersects o n)
          (fun p hp hq => headerRows_eq_zero hw ho hn hp hq)]
        congr 1
        exact List.map_congr_left fun p hp => headerRows_eq hw (List.mem_of_mem_filter hp)
      have hmem : ∀ p ∈ c.partitions.filter (fun p => p.intersects o n), p ∈ c.partitions :=
        fun p hp => List.mem_of_mem_filter hp
      rw [hsum]
      generalize c.partitions.filter (fun p => p.intersects o n) = qs at hmem ⊢
      cases qs with
      | nil => exact ⟨none, rfl, rfl⟩
      | cons q qs =>
        -- the partitions read share one schema, so their frames join, and no row is lost
        obtain ⟨sch, hsch⟩ := hw.schema
        have hschema : ∀ p ∈ q :: qs, (c.frameOf p).schema = sch := fun p hp => by
          obtain ⟨h, hr⟩ := read_frameOf hw (hmem p hp)
          exact hsch p (hmem p hp) h _ hr
        obtain ⟨F, hF, hidx⟩ := @Frame.concat_of_schema (c.frameOf q) (qs.map c.frameOf) (by
          simp only [List.mem_map]
          rintro _ ⟨p, hp, rfl⟩
          rw [hschema p (List.mem_cons_of_mem _ hp), hschema q List.mem_cons_self])
        have hsize := size_sortByIndex_joined hw ho hn hmem (by rw [hidx, List.map_cons])
        set sorted := (F.filterRange o n).sortByIndex with hsorted
        refine ⟨if sorted.isEmpty then none else some sorted, ?_, ?_⟩
        · rw [List.map_cons]
          simp [hF, Except.mapError, bind, Except.bind, pure, Except.pure, hsorted]
        · rw [← hsize]
          by_cases he : sorted.isEmpty = true
          · simp [he, rowCount, Frame.isEmpty_iff.1 he]
          · simp [he, rowCount]

end WellStored

end Cache

end FrameCache
