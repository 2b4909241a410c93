import Mathlib
import FrameCache.Proofs.RollingStats
import FrameCache.Link.Resample

/-!
# Buckets of resampled rows

Resampling orders rows and buckets by their key, the instant and then the link
(`sampleKey`): `Bucket.keyBefore` and `Bucket.hasKey` are `<` and `=` on keys. `collectBuckets`
is a run fold over the rows sorted stably by key, so its buckets are the key classes of the rows
in increasing order of key, each holding its rows' values in input order (`collectBuckets_spec`):
a bucket's value is `cellValue` of those values.

`fillCells` reads cells given in increasing order of key against the buckets with a pointer that
only moves forward; every cell gets the value of the bucket of its key, if there is one
(`fillCells_eq`). A bucket whose key is no cell's is passed over and lost.
-/

namespace FrameCache

/-- The order of rows and buckets: by instant, then by link. -/
def sampleKey (t : Timestamp) (l : String) : Lex (Int × Lex (Nat × String)) :=
  toLex (t.second, toLex (t.nano, l))

theorem sampleKey_lt_iff {t u : Timestamp} {l m : String} :
    sampleKey t l < sampleKey u m ↔
      t.second < u.second ∨ t.second = u.second ∧ (t.nano < u.nano ∨ t.nano = u.nano ∧ l < m) := by
  simp [sampleKey, Prod.Lex.toLex_lt_toLex]

theorem sampleKey_eq_iff {t u : Timestamp} {l m : String} :
    sampleKey t l = sampleKey u m ↔ t.sameInstant u = true ∧ l = m := by
  simp [sampleKey, Timestamp.sameInstant, Timestamp.instant, and_assoc]

namespace Bucket

/-- The key of a bucket: its start and its link. -/
def key (b : Bucket) : Lex (Int × Lex (Nat × String)) := sampleKey b.start b.link

@[simp] theorem start_add (b : Bucket) (v : Double) : (b.add v).start = b.start := by
  unfold add
  split <;> rfl

@[simp] theorem link_add (b : Bucket) (v : Double) : (b.add v).link = b.link := by
  unfold add
  split <;> rfl

@[simp] theorem key_add (b : Bucket) (v : Double) : (b.add v).key = b.key := by
  simp [key]

/-- A key comes before a bucket's exactly when it is less than the bucket's key. -/
theorem keyBefore_iff {t : Timestamp} {l : String} {b : Bucket} :
    b.keyBefore t l = true ↔ sampleKey t l < b.key := by
  rw [key, sampleKey_lt_iff]
  unfold keyBefore Timestamp.cmp Instant.cmp
  simp only [Timestamp.instant]
  rcases lt_trichotomy t.second b.start.second with hs | hs | hs
  · simp [compare_lt_iff_lt.2 hs, hs]
  · rcases lt_trichotomy t.nano b.start.nano with hn | hn | hn
    · simp [compare_lt_iff_lt.2 hn, hs, hn]
    · simp [hs, hn]
    · simp [compare_gt_iff_gt.2 hn, hs, Nat.lt_asymm hn, ne_of_gt hn]
  · simp [compare_gt_iff_gt.2 hs, Int.lt_asymm hs, Int.ne_of_gt hs]

/-- A key is a bucket's exactly when it equals the bucket's key. -/
theorem hasKey_iff {t : Timestamp} {l : String} {b : Bucket} :
    b.hasKey t l = true ↔ sampleKey t l = b.key := by
  rw [key, sampleKey_eq_iff]
  simp [hasKey]

/-- A bucket is passed over for a key, neither after it nor its own, exactly when its key is
below it. -/
theorem passedOver_iff {t : Timestamp} {l : String} {b : Bucket} :
    (!(b.keyBefore t l) && !(b.hasKey t l)) = true ↔ b.key < sampleKey t l := by
  rw [Bool.and_eq_true, Bool.not_eq_true', Bool.not_eq_true', ← Bool.not_eq_true,
    ← Bool.not_eq_true, keyBefore_iff, hasKey_iff, not_lt, lt_iff_le_and_ne, ne_comm]

/-- Adding values in order: the values that are not NaN are summed in order and counted. -/
theorem foldl_add (vs : List Double) (b : Bucket) :
    vs.foldl add b = ⟨b.start, b.link, (vs.filter fun v => !v.isNaN).foldl Double.add b.sum,
      b.count + (vs.filter fun v => !v.isNaN).length⟩ := by
  induction vs generalizing b with
  | nil => rfl
  | cons v vs ih =>
    rw [List.foldl_cons, ih]
    by_cases hv : v.isNaN = true
    · simp [add, hv]
    · rw [Bool.not_eq_true] at hv
      simp only [add, hv, Bool.false_eq_true, if_false, List.filter_cons, Bool.not_false, if_true,
        List.foldl_cons, List.length_cons, Bucket.mk.injEq, true_and]
      omega

end Bucket

/-- The value of a grid cell from the values of its rows, in input order: no rows make an empty
cell, zero bytes or an unknown rate; rows whose values are all NaN make NaN; otherwise the values
that are not NaN are summed in order from zero, as bytes, and divided by their count, as a rate. -/
def cellValue (kind : DataKind) (vs : List Double) : Double :=
  if vs = [] then
    match kind with
    | .bytes => Double.zero
    | .bitsPerSecond => Double.nan
  else
    let xs := vs.filter fun v => !v.isNaN
    if xs = [] then Double.nan
    else
      match kind with
      | .bytes => xs.foldl Double.add Double.zero
      | .bitsPerSecond => (xs.foldl Double.add Double.zero).div (Double.ofNat xs.length)

/-- The value of a bucket opened by a row and grown by more rows is the cell value of their
values. -/
theorem value_foldl_add (kind : DataKind) (t : Timestamp) (l : String) (v : Double) (vs : List Double) :
    Bucket.value kind (some (vs.foldl Bucket.add (Bucket.add ⟨t, l, Double.zero, 0⟩ v))) =
      cellValue kind (v :: vs) := by
  rw [← List.foldl_cons (f := Bucket.add), Bucket.foldl_add]
  -- both sides test whether a value that is not NaN is left, then match on the kind: with the
  -- kind fixed, both matches reduce and the two tests are the same
  cases kind <;>
    simp only [Bucket.value, cellValue, reduceCtorEq, if_false, Nat.zero_add, List.length_eq_zero_iff]

theorem value_none (kind : DataKind) : Bucket.value kind none = cellValue kind [] := by
  cases kind <;> rfl

namespace Bucket

@[simp] theorem start_foldl_add (vs : List Double) (b : Bucket) : (vs.foldl add b).start = b.start := by
  rw [foldl_add]

/-- The order `collectBuckets` sorts rows by is that of their keys. -/
theorem sortLe_iff (a b : Timestamp × String × Double) :
    (!(Bucket.keyBefore b.1 b.2.1 ⟨a.1, a.2.1, Double.zero, 0⟩)) = true ↔
      sampleKey a.1 a.2.1 ≤ sampleKey b.1 b.2.1 := by
  rw [Bool.not_eq_true', ← Bool.not_eq_true, keyBefore_iff, not_lt]
  rfl

end Bucket

/-- `collectBuckets` is a run fold over the rows sorted by key. -/
theorem collectBuckets_eq (rows : List (Timestamp × String × Double)) :
    collectBuckets rows = (foldRuns (fun b x => b.hasKey x.1 x.2.1) (fun b x => b.add x.2.2)
      (fun x => Bucket.add ⟨x.1, x.2.1, Double.zero, 0⟩ x.2.2)
      (rows.mergeSort fun a b => !(Bucket.keyBefore b.1 b.2.1 ⟨a.1, a.2.1, Double.zero, 0⟩))).reverse :=
  rfl

/-- The buckets of rows are their key classes, in increasing order of key: one per key of the
rows, each starting at one of its rows' timestamps, with the value of its rows' values in input
order. -/
theorem collectBuckets_spec (rows : List (Timestamp × String × Double)) :
    ((collectBuckets rows).map Bucket.key).Pairwise (· < ·) ∧
    (∀ k, k ∈ (collectBuckets rows).map Bucket.key ↔ ∃ r ∈ rows, sampleKey r.1 r.2.1 = k) ∧
    ∀ b ∈ collectBuckets rows, (∃ r ∈ rows, b.start = r.1) ∧ ∀ kind,
      Bucket.value kind (some b) =
        cellValue kind ((rows.filter fun r => sampleKey r.1 r.2.1 = b.key).map (·.2.2)) := by
  have trans : ∀ a b c : Timestamp × String × Double,
      (!(Bucket.keyBefore b.1 b.2.1 ⟨a.1, a.2.1, Double.zero, 0⟩)) = true →
      (!(Bucket.keyBefore c.1 c.2.1 ⟨b.1, b.2.1, Double.zero, 0⟩)) = true →
      (!(Bucket.keyBefore c.1 c.2.1 ⟨a.1, a.2.1, Double.zero, 0⟩)) = true := by
    intro a b c hab hbc
    rw [Bucket.sortLe_iff] at *
    exact le_trans hab hbc
  have total : ∀ a b : Timestamp × String × Double,
      ((!(Bucket.keyBefore b.1 b.2.1 ⟨a.1, a.2.1, Double.zero, 0⟩)) ||
        (!(Bucket.keyBefore a.1 a.2.1 ⟨b.1, b.2.1, Double.zero, 0⟩))) = true := by
    intro a b
    rw [Bool.or_eq_true, Bucket.sortLe_iff, Bucket.sortLe_iff]
    exact le_total _ _
  have hsorted := (List.pairwise_mergeSort trans total rows).imp fun h => (Bucket.sortLe_iff _ _).1 h
  have hk : KeyedRuns (fun x : Timestamp × String × Double => sampleKey x.1 x.2.1) Bucket.key
      (fun b x => b.hasKey x.1 x.2.1) (fun b x => b.add x.2.2)
      (fun x => Bucket.add ⟨x.1, x.2.1, Double.zero, 0⟩ x.2.2) :=
    ⟨fun _ _ => Bucket.hasKey_iff.trans eq_comm, fun _ _ => Bucket.key_add _ _,
      fun _ => Bucket.key_add _ _⟩
  obtain ⟨hinc, hkeys, hfolds⟩ := foldRuns_sorted hk hsorted
  rw [collectBuckets_eq]
  refine ⟨hinc, fun k => by rw [hkeys]; simp only [List.mem_mergeSort], fun b hb => ?_⟩
  obtain ⟨x₀, rest, hfilter, rfl⟩ := hfolds b hb
  -- the rows of the bucket's key, sorted, are those of the input in order
  have hstable := filter_mergeSort_eq_filter _ trans total (l := rows)
    (p := fun x => decide (sampleKey x.1 x.2.1 =
      (rest.foldl (fun b x => b.add x.2.2) (Bucket.add ⟨x₀.1, x₀.2.1, Double.zero, 0⟩ x₀.2.2)).key))
    fun a _ c _ ha hc => by
      simp only [decide_eq_true_eq] at ha hc
      rw [Bucket.sortLe_iff, ha, hc]
  rw [hstable] at hfilter
  have hx₀ : x₀ ∈ rows := (List.mem_filter.1 (hfilter ▸ List.mem_cons_self)).1
  refine ⟨⟨x₀, hx₀, ?_⟩, fun kind => ?_⟩
  · rw [← List.foldl_map (g := Bucket.add), Bucket.start_foldl_add, Bucket.start_add]
  · rw [hfilter, ← List.foldl_map (g := Bucket.add), value_foldl_add, List.map_cons]

/-- On buckets in increasing order of key, passing over those before a key leaves those at or
after it. -/
theorem dropWhile_key_lt {bs : List Bucket} (hs : (bs.map Bucket.key).Pairwise (· < ·))
    (k : Lex (Int × Lex (Nat × String))) :
    bs.dropWhile (fun b => decide (b.key < k)) = bs.filter fun b => decide (k ≤ b.key) := by
  induction bs with
  | nil => rfl
  | cons b bs ih =>
    rw [List.map_cons, List.pairwise_cons] at hs
    by_cases hb : b.key < k
    · rw [List.dropWhile_cons_of_pos (by simpa using hb), ih hs.2, List.filter_cons_of_neg (by simpa using hb)]
    · rw [List.dropWhile_cons_of_neg (by simpa using hb), List.filter_cons_of_pos (by simpa using hb),
        List.filter_eq_self.2]
      intro c hc
      have := hs.1 c.key (List.mem_map_of_mem hc)
      simpa using le_of_lt (lt_of_le_of_lt (not_lt.1 hb) this)

/-- On buckets in increasing order of key, a cell takes the value of the bucket of its key, if
there is one, and leaves the buckets after its key. -/
theorem fillStep_eq (kind : DataKind) (out : List Double) {left : List Bucket} (t : Timestamp)
    (l : String) (hs : (left.map Bucket.key).Pairwise (· < ·)) :
    fillStep kind (out, left) (t, l) =
      (Bucket.value kind (left.find? fun b => b.hasKey t l) :: out,
        left.filter fun b => decide (sampleKey t l < b.key)) := by
  have hpass : (fun b => !(Bucket.keyBefore t l b) && !(b.hasKey t l)) =
      fun b => decide (b.key < sampleKey t l) := by
    funext b
    rw [Bool.eq_iff_iff, Bucket.passedOver_iff, decide_eq_true_iff]
  -- the buckets passed over have keys below the cell's: its bucket is among those left
  have hfind : left.find? (fun b => b.hasKey t l) =
      (left.filter fun b => decide (sampleKey t l ≤ b.key)).find? fun b => b.hasKey t l := by
    rw [List.find?_filter]
    congr 1
    funext b
    by_cases hk : b.hasKey t l = true
    · simp [hk, ← Bucket.hasKey_iff.1 hk]
    · simp [hk]
  have hafter : left.filter (fun b => decide (sampleKey t l < b.key)) =
      (left.filter fun b => decide (sampleKey t l ≤ b.key)).filter
        fun b => decide (sampleKey t l < b.key) := by
    rw [List.filter_filter]
    refine List.filter_congr fun b _ => ?_
    by_cases hlt : sampleKey t l < b.key
    · simp [hlt, le_of_lt hlt]
    · simp [hlt]
  unfold fillStep
  simp only [hpass, dropWhile_key_lt hs]
  rw [hfind, hafter]
  generalize hrest : left.filter (fun b => decide (sampleKey t l ≤ b.key)) = rest
  have hrest_sorted : (rest.map Bucket.key).Pairwise (· < ·) := by
    rw [← hrest, List.pairwise_map]
    exact (List.pairwise_map.1 hs).sublist List.filter_sublist
  have hrest_ge : ∀ b ∈ rest, sampleKey t l ≤ b.key := by
    intro b hb
    rw [← hrest] at hb
    simpa using (List.mem_filter.1 hb).2
  cases rest with
  | nil => rfl
  | cons b bs =>
    have hbs : ∀ b' ∈ bs, b.key < b'.key := fun b' hb' =>
      (List.pairwise_cons.1 (List.pairwise_map.1 hrest_sorted)).1 b' hb'
    by_cases hk : b.hasKey t l = true
    · -- the first bucket left is the cell's: it is taken, and those after it stay
      have hkey := Bucket.hasKey_iff.1 hk
      rw [List.find?_cons_of_pos hk, List.filter_cons_of_neg (by simp [hkey]),
        List.filter_eq_self.2 fun b' hb' => by simpa [hkey] using hbs b' hb']
      simp only [hk, if_true]
    · -- the first bucket left is after the cell's key, so no bucket left is the cell's
      have hlt : sampleKey t l < b.key :=
        lt_of_le_of_ne (hrest_ge b List.mem_cons_self) fun he => hk (Bucket.hasKey_iff.2 he)
      have hnone : (b :: bs).find? (fun b => b.hasKey t l) = none := by
        rw [List.find?_eq_none]
        intro b' hb' hk'
        rcases List.mem_cons.1 hb' with rfl | hb'
        · exact hk hk'
        · exact absurd (Bucket.hasKey_iff.1 hk') (ne_of_lt (lt_trans hlt (hbs b' hb')))
      have hall : (b :: bs).filter (fun b => decide (sampleKey t l < b.key)) = b :: bs := by
        refine List.filter_eq_self.2 fun b' hb' => ?_
        rcases List.mem_cons.1 hb' with rfl | hb'
        · simpa using hlt
        · simpa using lt_trans hlt (hbs b' hb')
      rw [hnone, hall]
      simp only [hk, Bool.false_eq_true, if_false]

/-- What `fillCells` holds after a prefix of the cells: the values so far are those of the buckets
of the cells' keys, latest first, and the buckets left are those after every cell so far. -/
structure FillInv (kind : DataKind) (buckets : List Bucket) (cells : List (Timestamp × String))
    (st : List Double × List Bucket) : Prop where
  values : st.1 = (cells.map fun c => Bucket.value kind (buckets.find? fun b => b.hasKey c.1 c.2)).reverse
  left : st.2 = buckets.filter fun b => cells.all fun c => decide (sampleKey c.1 c.2 < b.key)

/-- A cell whose key is above those of the cells before it keeps the invariant. -/
theorem FillInv.step {kind : DataKind} {buckets : List Bucket} {cells : List (Timestamp × String)}
    {st : List Double × List Bucket} (hb : (buckets.map Bucket.key).Pairwise (· < ·))
    (h : FillInv kind buckets cells st) {c : Timestamp × String}
    (hc : ∀ c' ∈ cells, sampleKey c'.1 c'.2 < sampleKey c.1 c.2) :
    FillInv kind buckets (cells ++ [c]) (fillStep kind st c) := by
  obtain ⟨out, left⟩ := st
  obtain ⟨t, l⟩ := c
  have hout : out = _ := h.values
  have hleft : left = _ := h.left
  have hsorted : (left.map Bucket.key).Pairwise (· < ·) := by
    rw [hleft, List.pairwise_map]
    exact (List.pairwise_map.1 hb).sublist List.filter_sublist
  -- the cell's key is above those before it, so its bucket has not been passed over
  have hfind : buckets.find? (fun b => b.hasKey t l) = left.find? fun b => b.hasKey t l := by
    rw [hleft, List.find?_filter]
    congr 1
    funext b
    by_cases hk : b.hasKey t l = true
    · have hall : (cells.all fun c => decide (sampleKey c.1 c.2 < sampleKey t l)) = true := by
        simpa using hc
      simp [hk, ← Bucket.hasKey_iff.1 hk, hall]
    · simp [hk]
  rw [fillStep_eq kind out t l hsorted]
  constructor
  · simp [hout, hfind]
  · rw [hleft, List.filter_filter]
    refine List.filter_congr fun b _ => ?_
    simp only [List.all_append, List.all_cons, List.all_nil, Bool.and_true]
    exact Bool.and_comm _ _
/-- `fillCells` gives every cell, when the cells come in increasing order of key, the value of
the bucket of its key, or that of an empty cell. -/
theorem fillCells_eq (kind : DataKind) {cells : List (Timestamp × String)} {buckets : List Bucket}
    (hc : (cells.map fun c => sampleKey c.1 c.2).Pairwise (· < ·))
    (hb : (buckets.map Bucket.key).Pairwise (· < ·)) :
    fillCells kind cells buckets =
      cells.map fun c => Bucket.value kind (buckets.find? fun b => b.hasKey c.1 c.2) := by
  have hinv : ∀ cells : List (Timestamp × String), (cells.map fun c => sampleKey c.1 c.2).Pairwise (· < ·) →
      FillInv kind buckets cells (cells.foldl (fillStep kind) ([], buckets)) := by
    intro cells
    induction cells using List.reverseRecOn with
    | nil => exact fun _ => ⟨rfl, by simp⟩
    | append_singleton cells c ih =>
      intro hs
      rw [List.map_append, List.pairwise_append] at hs
      rw [List.foldl_append, List.foldl_cons, List.foldl_nil]
      exact (ih hs.1).step hb fun c' hc' =>
        hs.2.2 _ (List.mem_map_of_mem hc') _ (List.mem_singleton_self _)
  rw [fillCells, (hinv cells hc).values, List.reverse_reverse]

end FrameCache
