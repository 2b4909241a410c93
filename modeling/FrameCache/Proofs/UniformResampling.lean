import Mathlib
import FrameCache.Proofs.SamplingPeriod
import FrameCache.Proofs.ResampleGrid
import FrameCache.Proofs.FlatIntervals
import FrameCache.Proofs.RowOrder
import FrameCache.Proofs.Dedup
import FrameCache.Proofs.Join

/-!
# Resampling makes sampling uniform

A flatness analysis asked to resample does so when the sampling of its frame, sorted by time, is
not uniform: it resamples to the least gap, the resolution, and the bandwidth stage then reads
the sampling period of the resampled index.

Outside leap seconds the distinct instants of a resampled frame are its grid
(`distinctInstants_resample`), whose points step by the resolution from a bucket start, so every
gap is the resolution and the sampling is uniform (`samplingPeriod_resample`). A bucket starts at
most one resolution before its rows (`Timestamp.truncate_linear_bounds`). A well-formed frame
whose sampling is not uniform has three distinct instants or more, each two gaps of at least the
resolution apart, so its latest bucket starts more than a resolution after its earliest and the
grid has two points or more (`two_le_length_bucketGrid`).

So no analysis of a frame outside leap seconds fails for non-uniform sampling, and a frame it
resamples has two distinct instants or more and the resolution as its period
(`flatnessAnalysis_resampling_uniform`). A leap second breaks this: the grid can start in the
leap second 23:59:60.5, whose step to 00:00:00 measures −0.5 s
(`leapSecond_resampling_nonUniform`).
-/

namespace FrameCache

namespace Frame

variable {f : Frame} {name : String}

theorem column_of_textColumn {xs : Array String} (h : f.textColumn name = .ok xs) :
    f.column name = .ok (.text xs) := by
  unfold textColumn at h
  cases hc : f.column name with
  | error e => simp [hc, bind, Except.bind] at h
  | ok c =>
    simp only [hc, bind, Except.bind] at h
    cases c <;> simp_all [pure, Except.pure, throw, throwThe, MonadExceptOf.throw]

theorem column_of_floatColumn {xs : Array Double} (h : f.floatColumn name = .ok xs) :
    f.column name = .ok (.float xs) := by
  unfold floatColumn at h
  cases hc : f.column name with
  | error e => simp [hc, bind, Except.bind] at h
  | ok c =>
    simp only [hc, bind, Except.bind] at h
    cases c <;> simp_all [pure, Except.pure, throw, throwThe, MonadExceptOf.throw]

/-- Every column of a well-formed frame has a value for every row. -/
theorem WellFormed.size_column (hf : f.WellFormed) {c : Column} (h : f.column name = .ok c) :
    c.size = f.size := by
  unfold column at h
  split at h
  · rename_i n c' hfind
    cases h
    exact hf.sizes _ (List.mem_of_find?_eq_some hfind)
  · cases h

/-- Every index timestamp of a sorted frame is one of the frame's. -/
theorem mem_index_sortByIndex {t : Timestamp} (ht : t ∈ f.sortByIndex.index) : t ∈ f.index := by
  unfold sortByIndex at ht
  split at ht
  · exact ht
  · simp only [takeRows, Array.mem_map, List.mem_toArray] at ht
    obtain ⟨i, hi, rfl⟩ := ht
    have hlt : i < f.index.size := List.mem_range.1 ((sortedRows_spec f).1.subset hi)
    rw [Array.getD_eq_getD_getElem?, Array.getElem?_eq_getElem hlt, Option.getD_some]
    exact Array.getElem_mem hlt

end Frame

section Rows

variable {index : Array Timestamp} {links : Array String} {values : Array Double}

/-- Every row's timestamp is one of the index. -/
theorem mem_index_of_mem_sampleRows {r : (Timestamp × String) × Double}
    (hr : r ∈ sampleRows index links values) : r.1.1 ∈ index :=
  Array.mem_toList_iff.1 (List.of_mem_zip (List.of_mem_zip hr).1).1

/-- With both columns as long as the index, every index timestamp is a row's. -/
theorem exists_row_of_mem_index (hl : links.size = index.size) (hv : values.size = index.size)
    {t : Timestamp} (ht : t ∈ index) : ∃ r ∈ sampleRows index links values, r.1.1 = t := by
  have hmap : (sampleRows index links values).map (·.1.1) = index.toList := by
    rw [sampleRows, show (fun r : (Timestamp × String) × Double => r.1.1) = Prod.fst ∘ Prod.fst from rfl,
      ← List.map_map, List.map_fst_zip (by simp; omega), List.map_fst_zip (by simp; omega)]
  rw [← Array.mem_toList_iff, ← hmap] at ht
  exact List.mem_map.1 ht

end Rows

section Grid

variable {f g : Frame} {linkColumn dataColumn : String} {res : TimeDelta} {kind : DataKind}
  {links : Array String} {values : Array Double}

/-- Consecutive points of the steps from a start outside leap seconds lie one step apart. -/
theorem since_of_mem_zip_tail {grid : List Timestamp} {first : Timestamp} (hd : 0 < res.nanos)
    (hf : ¬ first.IsLeap) (hgrid : ∀ k < grid.length, grid[k]? = first.advance res k) :
    ∀ p ∈ grid.zip grid.tail, (p.2.since p.1).nanos = res.nanos := by
  intro p hp
  obtain ⟨k, hk⟩ := List.mem_iff_getElem?.1 hp
  rw [List.getElem?_zip_eq_some, List.getElem?_tail] at hk
  obtain ⟨h₁, h₂⟩ := hk
  have hk₁ : k + 1 < grid.length := (List.getElem?_eq_some_iff.1 h₂).1
  rw [hgrid k (by omega)] at h₁
  rw [hgrid (k + 1) hk₁] at h₂
  obtain ⟨hl₁, hn₁⟩ := Timestamp.advance_linear hd h₁
  obtain ⟨hl₂, hn₂⟩ := Timestamp.advance_linear hd h₂
  rw [Timestamp.since_of_not_leap (fun h => hf (hn₂ h)) (fun h => hf (hn₁ h)), hl₁, hl₂]
  push_cast
  rw [Int.add_mul, Int.one_mul]
  omega

/-- A resampled frame reads its links and data from columns of the frame. -/
theorem resample_columns (hg : resample f linkColumn dataColumn res kind = .ok g) :
    ∃ links values, f.textColumn linkColumn = .ok links ∧ f.floatColumn dataColumn = .ok values := by
  unfold resample at hg
  split at hg
  · simp [throw, throwThe, MonadExceptOf.throw, bind, Except.bind] at hg
  · simp only [Except.bind_eq_ok] at hg
    obtain ⟨links, hl, values, hv, -⟩ := hg
    exact ⟨links, values, Except.mapError_eq_ok.1 hl, Except.mapError_eq_ok.1 hv⟩

/-- The distinct instants of a resampled frame are the points of its grid. -/
theorem distinctInstants_resample (hlinks : f.textColumn linkColumn = .ok links)
    (hvalues : f.floatColumn dataColumn = .ok values)
    (hg : resample f linkColumn dataColumn res kind = .ok g) :
    distinctInstants g.index.toList = bucketGrid res (rowBuckets res (sampleRows f.index links values)) := by
  obtain ⟨hd, -, hindex, -, -⟩ := resample_eq_ok hlinks hvalues hg
  set buckets := rowBuckets res (sampleRows f.index links values)
  -- each grid point stands once per link, and there is a link as soon as there is a bucket
  refine distinctInstants_eq_of_mem_iff (pairwise_bucketGrid hd buckets) fun t => ?_
  rw [hindex, gridCells, List.map_flatMap, List.mem_flatMap]
  simp only [List.map_map, Function.comp_def, List.map_const', List.mem_replicate]
  constructor
  · rintro ⟨p, hp, -, rfl⟩
    exact hp
  · intro ht
    cases hB : buckets with
    | nil => rw [hB] at ht; cases ht
    | cons b bs =>
      have hlink : b.link ∈ distinctTexts ((b :: bs).map (·.link)) :=
        ((distinctTexts_spec _).2 _).2 (List.mem_map_of_mem List.mem_cons_self)
      exact ⟨t, hB ▸ ht, Nat.pos_iff_ne_zero.1 (List.length_pos_of_mem hlink), rfl⟩

/-- Outside leap seconds, every gap of a resampled index is the resolution. -/
theorem gaps_resample (hlinks : f.textColumn linkColumn = .ok links)
    (hvalues : f.floatColumn dataColumn = .ok values)
    (hg : resample f linkColumn dataColumn res kind = .ok g) (hnl : ∀ t ∈ f.index, ¬ t.IsLeap) :
    ∀ d ∈ gaps g.index.toList, d.nanos = res.nanos := by
  obtain ⟨hd, htrunc, -, -, -⟩ := resample_eq_ok hlinks hvalues hg
  have hgaps : gaps g.index.toList = ((distinctInstants g.index.toList).zip
      (distinctInstants g.index.toList).tail).map fun p => p.2.since p.1 := rfl
  rw [hgaps, distinctInstants_resample hlinks hvalues hg]
  cases hB : rowBuckets res (sampleRows f.index links values) with
  | nil => simp [bucketGrid]
  | cons b bs =>
    -- the grid steps from the first bucket's start, which is outside a leap second
    obtain ⟨r, hr, hstart⟩ := start_mem_rowBuckets (hB ▸ List.mem_cons_self : b ∈ rowBuckets res _)
    have hb : ¬ b.start.IsLeap := by
      rw [hstart]
      exact (Timestamp.truncate_of_not_leap hd (hnl _ (mem_index_of_mem_sampleRows hr)) (htrunc r hr)).2.1
    rw [bucketGrid_cons]
    intro d hd'
    obtain ⟨p, hp, rfl⟩ := List.mem_map.1 hd'
    exact since_of_mem_zip_tail hd hb (gridFrom_getElem? _ _) p hp

/-- Outside leap seconds, a resampled index is sampled uniformly at the resolution. -/
theorem samplingPeriod_resample (hg : resample f linkColumn dataColumn res kind = .ok g)
    (hnl : ∀ t ∈ f.index, ¬ t.IsLeap) :
    samplingPeriod g.index.toList = .ok (if gaps g.index.toList = [] then none else some res) := by
  obtain ⟨links, values, hlinks, hvalues⟩ := resample_columns hg
  exact samplingPeriod_of_uniform (gaps_resample hlinks hvalues hg hnl)

theorem two_le_length_of_mem {α : Type} {l : List α} {a b : α} (ha : a ∈ l) (hb : b ∈ l) (hab : a ≠ b) :
    2 ≤ l.length :=
  match l, ha, hb with
  | [], ha, _ => absurd ha List.not_mem_nil
  | [_], ha, hb => absurd ((List.mem_singleton.1 ha).trans (List.mem_singleton.1 hb).symm) hab
  | _ :: _ :: _, _, _ => by simp

/-- Outside leap seconds, buckets whose last one starts more than one resolution after the first
have a grid of two points or more: the first start and the point one step after it. -/
theorem two_le_length_bucketGrid_of_span {lo : TimeDelta} {b : Bucket} {bs : List Bucket}
    (hd : 0 < lo.nanos) (hnb : ¬ b.start.IsLeap)
    (hnl : ¬ ((b :: bs).getLast (List.cons_ne_nil b bs)).start.IsLeap)
    (hspan : b.start.linear + lo.nanos < ((b :: bs).getLast (List.cons_ne_nil b bs)).start.linear) :
    2 ≤ (bucketGrid lo (b :: bs)).length := by
  rw [bucketGrid_cons]
  obtain ⟨u, hu⟩ := Timestamp.advance_isSome (y := ((b :: bs).getLast (List.cons_ne_nil b bs)).start)
    hd hnb 1 (by omega)
  obtain ⟨hul, hun⟩ := Timestamp.advance_linear hd hu
  have hnu : ¬ u.IsLeap := fun h => hnb (hun h)
  have hlin : u.linear = b.start.linear + lo.nanos := by rw [hul]; push_cast; omega
  have hmem₀ := mem_gridFrom_of_onGrid hd hnb hnl hnb rfl (by simp) (le_refl _)
    ((Timestamp.le_iff_linear hnb hnl).2 (by omega))
  have hmem₁ := mem_gridFrom_of_onGrid hd hnb hnl hnu (Timestamp.offset_advance hu) ⟨1, by omega⟩
    ((Timestamp.le_iff_linear hnb hnu).2 (by omega)) ((Timestamp.le_iff_linear hnu hnl).2 (by omega))
  exact two_le_length_of_mem hmem₀ hmem₁ fun h => by rw [h] at hlin; omega

/-- Outside leap seconds, when the sampling of a well-formed frame is not uniform, the grid of its
rows at the least gap has two points or more: three distinct instants or more lie two gaps of at
least the resolution apart, and a bucket starts at most one resolution before its rows. -/
theorem two_le_length_bucketGrid (hf : f.WellFormed) (hlinks : f.textColumn linkColumn = .ok links)
    (hvalues : f.floatColumn dataColumn = .ok values) (hnl : ∀ t ∈ f.index, ¬ t.IsLeap) {lo hi : TimeDelta}
    (hperiod : samplingPeriod f.index.toList = .error (.nonUniformSampling lo hi))
    (hg : resample f linkColumn dataColumn lo kind = .ok g) :
    2 ≤ (bucketGrid lo (rowBuckets lo (sampleRows f.index links values))).length := by
  obtain ⟨hd, htrunc, -, -, -⟩ := resample_eq_ok hlinks hvalues hg
  obtain ⟨lo', hi', he, hmin, -, -⟩ := samplingPeriod_eq_error hperiod
  cases he
  obtain ⟨-, hsub, -⟩ := distinctInstants_spec f.index.toList
  have hleast := (leastDelta_spec hmin).2
  have hgaps : gaps f.index.toList = ((distinctInstants f.index.toList).zip
      (distinctInstants f.index.toList).tail).map fun p => p.2.since p.1 := rfl
  have hnl' : ∀ t ∈ distinctInstants f.index.toList, ¬ t.IsLeap := fun t ht =>
    hnl t (Array.mem_toList_iff.1 (hsub t ht))
  -- three distinct instants, two gaps of at least the resolution apart
  obtain ⟨t₁, t₂, t₃, rest, hts⟩ := exists_three_instants hperiod
  rw [hts] at hgaps hnl' hsub
  have h₁₂ := hleast (t₂.since t₁) (by rw [hgaps]; simp)
  have h₂₃ := hleast (t₃.since t₂) (by rw [hgaps]; simp)
  have hn₁ := hnl' t₁ (by simp)
  have hn₂ := hnl' t₂ (by simp)
  have hn₃ := hnl' t₃ (by simp)
  rw [Timestamp.since_of_not_leap hn₂ hn₁] at h₁₂
  rw [Timestamp.since_of_not_leap hn₃ hn₂] at h₂₃
  -- the rows at the first and the third instant, and their buckets
  have hsize : ∀ {c : Column}, f.column linkColumn = .ok c ∨ f.column dataColumn = .ok c → c.size = f.index.size :=
    fun h => h.elim hf.size_column hf.size_column
  obtain ⟨r₁, hr₁, rfl⟩ := exists_row_of_mem_index (hsize (.inl (Frame.column_of_textColumn hlinks)))
    (hsize (.inr (Frame.column_of_floatColumn hvalues))) (Array.mem_toList_iff.1 (hsub t₁ (by simp)))
  obtain ⟨r₃, hr₃, rfl⟩ := exists_row_of_mem_index (hsize (.inl (Frame.column_of_textColumn hlinks)))
    (hsize (.inr (Frame.column_of_floatColumn hvalues))) (Array.mem_toList_iff.1 (hsub t₃ (by simp)))
  obtain ⟨hs₁, -⟩ := Timestamp.truncate_linear_bounds hd hn₁ (htrunc r₁ hr₁)
  obtain ⟨-, hs₃⟩ := Timestamp.truncate_linear_bounds hd hn₃ (htrunc r₃ hr₃)
  have hb₁ := (Timestamp.truncate_of_not_leap hd hn₁ (htrunc r₁ hr₁)).2.1
  have hb₃ := (Timestamp.truncate_of_not_leap hd hn₃ (htrunc r₃ hr₃)).2.1
  -- the first bucket starts at or before the first row's, the last at or after the third row's
  obtain ⟨b, bs, hB, hfirst, -⟩ := bucketStart_between lo hr₁
  obtain ⟨b', bs', hB', -, hlast⟩ := bucketStart_between lo hr₃
  rw [hB] at hB'
  obtain ⟨rfl, rfl⟩ := List.cons.inj hB'
  set last := (b :: bs).getLast (List.cons_ne_nil b bs)
  have hbucket : ∀ c ∈ rowBuckets lo (sampleRows f.index links values), ¬ c.start.IsLeap := by
    intro c hc
    obtain ⟨r, hr, hstart⟩ := start_mem_rowBuckets hc
    rw [hstart]
    exact (Timestamp.truncate_of_not_leap hd (hnl _ (mem_index_of_mem_sampleRows hr)) (htrunc r hr)).2.1
  have hnb : ¬ b.start.IsLeap := hbucket b (hB ▸ List.mem_cons_self)
  have hnl₀ : ¬ last.start.IsLeap := hbucket last (hB ▸ List.getLast_mem _)
  rw [Timestamp.le_iff_linear hnb hb₁] at hfirst
  rw [Timestamp.le_iff_linear hb₃ hnl₀] at hlast
  have hspan : b.start.linear + lo.nanos < last.start.linear := by omega
  rw [hB]
  exact two_le_length_bucketGrid_of_span hd hnb hnl₀ hspan
/-- Outside leap seconds, a well-formed frame whose sampling is not uniform, resampled to its
resolution, has two distinct instants or more and the resolution as its sampling period. -/
theorem samplingPeriod_resample_of_nonUniform (hf : f.WellFormed) (hnl : ∀ t ∈ f.index, ¬ t.IsLeap)
    {lo hi : TimeDelta} (hperiod : samplingPeriod f.index.toList = .error (.nonUniformSampling lo hi))
    (hg : resample f linkColumn dataColumn ((minResolution f.index.toList).getD lo) kind = .ok g) :
    2 ≤ (distinctInstants g.index.toList).length ∧
      samplingPeriod g.index.toList = .ok (minResolution f.index.toList) := by
  obtain ⟨lo', hi', he, hmin, -, -⟩ := samplingPeriod_eq_error hperiod
  cases he
  rw [hmin, Option.getD_some] at hg
  obtain ⟨links, values, hlinks, hvalues⟩ := resample_columns hg
  have htwo := two_le_length_bucketGrid hf hlinks hvalues hnl hperiod hg
  rw [← distinctInstants_resample hlinks hvalues hg] at htwo
  refine ⟨htwo, ?_⟩
  rw [samplingPeriod_resample hg hnl, hmin, if_neg]
  -- two distinct instants make a gap
  have hgaps : gaps g.index.toList = ((distinctInstants g.index.toList).zip
      (distinctInstants g.index.toList).tail).map fun p => p.2.since p.1 := rfl
  have hlen : 0 < (gaps g.index.toList).length := by
    rw [hgaps, List.length_map, List.length_zip, List.length_tail]
    omega
  exact List.ne_nil_of_length_pos hlen

end Grid

section Pipeline

/-- A computation that does not fail for non-uniform sampling. -/
def NoSamplingError {α : Type} (x : Except CacheError α) : Prop :=
  ∀ lo hi, x ≠ .error (.nonUniformSampling lo hi)

variable {α β : Type}

theorem NoSamplingError.bind {x : Except CacheError α} {k : α → Except CacheError β}
    (hx : NoSamplingError x) (hk : ∀ a, x = .ok a → NoSamplingError (k a)) : NoSamplingError (x >>= k) := by
  intro lo hi h
  rcases Except.bind_eq_error.1 h with h | ⟨a, ha, h⟩
  · exact hx lo hi h
  · exact hk a ha lo hi h

theorem NoSamplingError.discard {x : Except CacheError α} (hx : NoSamplingError x) :
    NoSamplingError (discard x) := by
  intro lo hi h
  cases x with
  | error e => exact hx lo hi (by simpa [Functor.discard, Functor.mapConst, Functor.map, Except.map] using h)
  | ok a => cases h

theorem NoSamplingError.mapM {xs : List α} {k : α → Except CacheError β}
    (h : ∀ x ∈ xs, NoSamplingError (k x)) : NoSamplingError (xs.mapM k) := by
  intro lo hi hx
  obtain ⟨x, hx', he⟩ := mapM_eq_error hx
  exact h x hx' lo hi he

theorem noSamplingError_ok (a : α) : NoSamplingError (.ok a : Except CacheError α) :=
  fun _ _ h => by cases h

theorem noSamplingError_invalidConfiguration (text : String) :
    NoSamplingError (throw (.invalidConfiguration text) : Except CacheError α) :=
  fun _ _ h => by cases h

theorem noSamplingError_mapError (y : Except FrameError α) : NoSamplingError (y.mapError .frame) := by
  intro lo hi h
  cases y <;> cases h

theorem noSamplingError_validate (c : FlatnessConfig) : NoSamplingError c.validate := by
  intro lo hi h
  unfold FlatnessConfig.validate at h
  split at h
  · dsimp only at h
    split_ifs at h <;> cases h
  · cases h

/-- Bandwidth fails for non-uniform sampling only when its index is not sampled uniformly. -/
theorem noSamplingError_bandwidth {f : Frame} {linkColumn dataColumn : String} {kind : DataKind}
    (h : NoSamplingError (samplingPeriod f.index.toList)) :
    NoSamplingError (Link.bandwidth f linkColumn dataColumn kind) := by
  unfold Link.bandwidth
  refine (noSamplingError_mapError _).discard.bind fun _ _ => ?_
  refine (noSamplingError_mapError _).bind fun values _ => ?_
  dsimp only
  cases kind with
  | bitsPerSecond => exact (noSamplingError_ok _).bind fun _ _ => noSamplingError_mapError _
  | bytes =>
    refine h.bind fun period _ => ?_
    cases period with
    | some p => exact (noSamplingError_ok _).bind fun _ _ => noSamplingError_mapError _
    | none => exact (noSamplingError_invalidConfiguration _).bind fun _ _ => noSamplingError_mapError _

theorem noSamplingError_utilization {f : Frame} {linkColumn : String} {speeds : String → Option Double} :
    NoSamplingError (Link.utilization f linkColumn speeds) := by
  unfold Link.utilization
  refine (noSamplingError_mapError _).bind fun _ _ => ?_
  refine (noSamplingError_mapError _).bind fun _ _ => ?_
  exact noSamplingError_mapError _

theorem noSamplingError_computeStats {f : Frame} {linkColumn valueColumn : String} {w : TimeDelta}
    {minPeriods : Nat} : NoSamplingError (computeStats f linkColumn valueColumn w minPeriods) := by
  unfold computeStats
  dsimp only
  split
  · exact (noSamplingError_invalidConfiguration _).bind fun _ h => by cases h
  · refine (noSamplingError_mapError _).bind fun _ _ => ?_
    exact (noSamplingError_mapError _).bind fun _ _ => noSamplingError_ok _

theorem noSamplingError_resample {f : Frame} {linkColumn dataColumn : String} {res : TimeDelta}
    {kind : DataKind} : NoSamplingError (resample f linkColumn dataColumn res kind) := by
  unfold resample
  dsimp only
  split
  · exact (noSamplingError_invalidConfiguration _).bind fun _ h => by cases h
  · refine (noSamplingError_mapError _).bind fun _ _ => ?_
    refine (noSamplingError_mapError _).bind fun _ _ => ?_
    refine (NoSamplingError.mapM fun r _ => ?_).bind fun _ _ => ?_
    · -- a row fails only outside the local range or when it cannot be bucketed
      refine NoSamplingError.bind (fun lo hi h => ?_) fun _ _ => ?_
      · unfold CacheError.requireLocal at h
        cases hc : r.1.1.checkLocal <;> rw [hc] at h <;> cases h
      · split
        · exact noSamplingError_ok _
        · exact noSamplingError_invalidConfiguration _
    · exact (noSamplingError_mapError _).bind fun _ _ => noSamplingError_mapError _

theorem length_foldl_rollStep (times : Array Timestamp) (values : Array Double) (w : TimeDelta)
    (minPeriods : Nat) :
    ∀ (is : List Nat) (acc : Nat × Running × List (Option (Double × Double × Double))),
      (is.foldl (rollStep times values w minPeriods) acc).2.2.length = acc.2.2.length + is.length
  | [], _ => rfl
  | i :: is, acc => by
    rw [List.foldl_cons, length_foldl_rollStep times values w minPeriods is, List.length_cons]
    obtain ⟨left, run, out⟩ := acc
    simp only [rollStep, List.length_cons]
    omega

/-- Rolling statistics have an entry for every timestamp of every link. -/
theorem computeStats_sizes {f : Frame} {linkColumn valueColumn : String} {w : TimeDelta}
    {minPeriods : Nat} {stats : List (String × LinkStats)}
    (h : computeStats f linkColumn valueColumn w minPeriods = .ok stats) :
    ∀ p ∈ stats, p.2.mean.size = p.2.index.size ∧ p.2.least.size = p.2.index.size ∧
      p.2.greatest.size = p.2.index.size := by
  unfold computeStats at h
  dsimp only at h
  split at h
  · cases h
  · simp only [Except.bind_eq_ok] at h
    obtain ⟨links, -, values, -, h⟩ := h
    cases h
    intro p hp
    obtain ⟨⟨l, rows⟩, -, rfl⟩ := List.mem_map.1 hp
    simp [linkStats, length_foldl_rollStep]

/-- After the sampling stage, an analysis with a valid configuration fails for non-uniform
sampling only when the index it reads is not sampled uniformly. -/
theorem noSamplingError_stages {F : Frame} {c : FlatnessConfig} {w : TimeDelta}
    (speeds : String → Option Double) (hval : c.validate = .ok w)
    (hF : NoSamplingError (samplingPeriod F.index.toList)) :
    NoSamplingError (do
      let f ← Link.bandwidth F c.linkColumn c.dataColumn c.dataKind
      let f ← Link.utilization f c.linkColumn speeds
      let stats ← computeStats f c.linkColumn Link.utilizationColumn w c.minPeriods
      analyzeFlatness stats c) := by
  refine (noSamplingError_bandwidth hF).bind fun _ _ => ?_
  refine noSamplingError_utilization.bind fun _ _ => ?_
  refine noSamplingError_computeStats.bind fun stats hstats => ?_
  rw [analyzeFlatness_eq_ok hval (computeStats_sizes hstats)]
  exact noSamplingError_ok _

/-- Outside leap seconds, an analysis that resamples never fails for non-uniform sampling. -/
theorem flatnessAnalysis_noSamplingError {f : Frame} {speeds : String → Option Double}
    {c : FlatnessConfig} (hres : c.resample = true) (hnl : ∀ t ∈ f.index, ¬ t.IsLeap) :
    NoSamplingError (flatnessAnalysis f speeds c) := by
  have hnl' : ∀ t ∈ f.sortByIndex.index, ¬ t.IsLeap := fun t ht => hnl t (Frame.mem_index_sortByIndex ht)
  unfold flatnessAnalysis
  refine (noSamplingError_validate c).bind fun w hw => ?_
  refine (noSamplingError_mapError _).discard.bind fun _ _ => ?_
  refine (noSamplingError_mapError _).discard.bind fun _ _ => ?_
  dsimp only
  rw [if_pos hres]
  split
  · -- not uniform: the resampled index is
    exact noSamplingError_resample.bind fun g hg => noSamplingError_stages speeds hw
      (by rw [samplingPeriod_resample hg hnl']; exact noSamplingError_ok _)
  · -- any other failure of the sampling stage is passed on
    rename_i e hne _
    refine NoSamplingError.bind (fun lo hi h => hne lo hi ?_) fun _ h => by cases h
    cases h
    rfl
  · -- uniform already
    rename_i period hperiod
    refine (noSamplingError_ok _).bind fun F hF => ?_
    cases hF
    exact noSamplingError_stages speeds hw (by rw [hperiod]; exact noSamplingError_ok _)

/-- Resampling always satisfies the bandwidth stage outside leap seconds. An analysis asked to
resample a frame with no timestamp in a leap second never fails for non-uniform sampling. When
the frame, sorted by time, is not sampled uniformly and resampling it to its resolution succeeds,
the resampled frame, the one the bandwidth stage reads, has two distinct instants or more and is
sampled uniformly at that resolution. -/
theorem flatnessAnalysis_resampling_uniform {f : Frame} {speeds : String → Option Double}
    {c : FlatnessConfig} (hf : f.WellFormed) (hres : c.resample = true)
    (hnl : ∀ t ∈ f.index, ¬ t.IsLeap) :
    (∀ lo hi, flatnessAnalysis f speeds c ≠ .error (.nonUniformSampling lo hi)) ∧
      ∀ lo hi g, samplingPeriod f.sortByIndex.index.toList = .error (.nonUniformSampling lo hi) →
        resample f.sortByIndex c.linkColumn c.dataColumn
            ((minResolution f.sortByIndex.index.toList).getD lo) c.dataKind = .ok g →
          2 ≤ (distinctInstants g.index.toList).length ∧
            samplingPeriod g.index.toList = .ok (minResolution f.sortByIndex.index.toList) :=
  ⟨flatnessAnalysis_noSamplingError hres hnl, fun _ _ _ hperiod hg =>
    samplingPeriod_resample_of_nonUniform hf.sortByIndex
      (fun t ht => hnl t (Frame.mem_index_sortByIndex ht)) hperiod hg⟩

/-- Half a second. -/
def halfSecond : TimeDelta := (TimeDelta.ofNanos? 500000000).getD default

/-- Flatness settings that resample, with a window of one second. -/
def resamplingConfig : FlatnessConfig := { resample := true, window := Span.ofWholeSeconds 1 }

/-- Byte counts 1, 2 and 3 of link `a` at 00:00:00.5, 00:00:01 and 00:00:02 on 2017-01-01: gaps
of half a second and of a second. -/
def halfSecondGapsFrame : Frame where
  index := #[(Timestamp.ofParts? 1483228800 500000000 .utc).getD default,
    (Timestamp.ofParts? 1483228801 0 .utc).getD default,
    (Timestamp.ofParts? 1483228802 0 .utc).getD default]
  columns := [("link", .text #["a", "a", "a"]),
    ("bytes", .float #[⟨0x3FF0000000000000⟩, ⟨0x4000000000000000⟩, ⟨0x4008000000000000⟩])]

theorem flatnessAnalysis_resampling_uniform_halfSecondGaps :
    halfSecondGapsFrame.WellFormed ∧ resamplingConfig.resample = true ∧
      (∀ t ∈ halfSecondGapsFrame.index, ¬ t.IsLeap) ∧
      (∀ lo hi, flatnessAnalysis halfSecondGapsFrame (fun _ => none) resamplingConfig ≠
          .error (.nonUniformSampling lo hi)) ∧
        ∀ lo hi g, samplingPeriod halfSecondGapsFrame.sortByIndex.index.toList =
            .error (.nonUniformSampling lo hi) →
          resample halfSecondGapsFrame.sortByIndex resamplingConfig.linkColumn resamplingConfig.dataColumn
              ((minResolution halfSecondGapsFrame.sortByIndex.index.toList).getD lo) resamplingConfig.dataKind = .ok g →
            2 ≤ (distinctInstants g.index.toList).length ∧
              samplingPeriod g.index.toList = .ok (minResolution halfSecondGapsFrame.sortByIndex.index.toList) :=
  have hf : halfSecondGapsFrame.WellFormed := ⟨by decide, by decide⟩
  ⟨hf, rfl, by decide, flatnessAnalysis_resampling_uniform hf rfl (by decide)⟩

/-- The same byte counts with the first in the leap second, at 23:59:60.5 on 2016-12-31. -/
def leapSecondGapsFrame : Frame :=
  { halfSecondGapsFrame with
    index := #[(Timestamp.ofParts? 1483228799 1500000000 .utc).getD default,
      (Timestamp.ofParts? 1483228801 0 .utc).getD default,
      (Timestamp.ofParts? 1483228802 0 .utc).getD default] }

/-- With a leap second the resampled grid starts at 23:59:60.5, and its step to 00:00:00 measures
−0.5 s while the others measure 0.5 s: the analysis of a well-formed frame, asked to resample,
fails for non-uniform sampling. -/
theorem leapSecond_resampling_nonUniform :
    leapSecondGapsFrame.WellFormed ∧ resamplingConfig.resample = true ∧
      flatnessAnalysis leapSecondGapsFrame (fun _ => none) resamplingConfig =
        .error (.nonUniformSampling ⟨-500000000, by decide, by decide⟩ halfSecond) := by
  have hval : resamplingConfig.validate = .ok ⟨1000000000, by decide, by decide⟩ :=
    FlatnessConfig.validate_eq_ok.2 (by decide)
  have hsort : leapSecondGapsFrame.sortByIndex = leapSecondGapsFrame := Frame.sortByIndex_eq_self (by decide)
  -- the frame's gaps: half a second from 23:59:60.5 to 00:00:01, then a second
  have hgaps : gaps leapSecondGapsFrame.index.toList = [halfSecond, ⟨1000000000, by decide, by decide⟩] := by
    unfold gaps distinctInstants
    rw [List.mergeSort_of_pairwise (by decide)]
    rfl
  have hperiod : samplingPeriod leapSecondGapsFrame.index.toList =
      .error (.nonUniformSampling halfSecond ⟨1000000000, by decide, by decide⟩) := by
    rw [samplingPeriod, hgaps]
    rfl
  have hmin : minResolution leapSecondGapsFrame.index.toList = some halfSecond := by
    rw [minResolution, hgaps]
    rfl
  have hlinks : leapSecondGapsFrame.textColumn "link" = .ok #["a", "a", "a"] := rfl
  have hvalues : leapSecondGapsFrame.floatColumn "bytes" =
      .ok #[⟨0x3FF0000000000000⟩, ⟨0x4000000000000000⟩, ⟨0x4008000000000000⟩] := rfl
  obtain ⟨g, hg⟩ : ∃ g, resample leapSecondGapsFrame "link" "bytes" halfSecond .bytes = .ok g :=
    resample_isOk (by decide) hlinks hvalues (by decide)
  obtain ⟨-, -, hindex, htext, hfloat⟩ := resample_eq_ok hlinks hvalues hg
  -- each row is its own bucket; the first starts in the leap second
  have hbuckets : rowBuckets halfSecond (sampleRows leapSecondGapsFrame.index #["a", "a", "a"]
      #[⟨0x3FF0000000000000⟩, ⟨0x4000000000000000⟩, ⟨0x4008000000000000⟩]) =
      [⟨⟨1483228799, 1500000000, Offset.utc, by decide, by decide, by decide⟩, "a", ⟨0x3FF0000000000000⟩, 1⟩,
        ⟨⟨1483228801, 0, Offset.utc, by decide, by decide, by decide⟩, "a", ⟨0x4000000000000000⟩, 1⟩,
        ⟨⟨1483228802, 0, Offset.utc, by decide, by decide, by decide⟩, "a", ⟨0x4008000000000000⟩, 1⟩] := by
    unfold rowBuckets collectBuckets
    rw [List.mergeSort_of_pairwise (by decide)]
    rfl
  have hlinkSet : distinctTexts ["a", "a", "a"] = ["a"] := by
    unfold distinctTexts
    rw [List.mergeSort_of_pairwise (by decide)]
    rfl
  have hgrid : g.index.toList = [⟨1483228799, 1500000000, Offset.utc, by decide, by decide, by decide⟩,
      ⟨1483228800, 0, Offset.utc, by decide, by decide, by decide⟩,
      ⟨1483228800, 500000000, Offset.utc, by decide, by decide, by decide⟩,
      ⟨1483228801, 0, Offset.utc, by decide, by decide, by decide⟩,
      ⟨1483228801, 500000000, Offset.utc, by decide, by decide, by decide⟩,
      ⟨1483228802, 0, Offset.utc, by decide, by decide, by decide⟩] := by
    rw [hindex, hbuckets]
    simp only [gridCells, List.map_cons, List.map_nil, hlinkSet]
    rfl
  -- the grid's gaps: −0.5 s out of the leap second, then half a second four times
  have hgaps' : gaps g.index.toList =
      [⟨-500000000, by decide, by decide⟩, halfSecond, halfSecond, halfSecond, halfSecond] := by
    rw [hgrid]
    unfold gaps distinctInstants
    rw [List.mergeSort_of_pairwise (by decide)]
    rfl
  have hperiod' : samplingPeriod g.index.toList =
      .error (.nonUniformSampling ⟨-500000000, by decide, by decide⟩ halfSecond) := by
    rw [samplingPeriod, hgaps']
    rfl
  have hbandwidth : Link.bandwidth g "link" "bytes" .bytes =
      .error (.nonUniformSampling ⟨-500000000, by decide, by decide⟩ halfSecond) := by
    unfold Link.bandwidth
    rw [htext, hfloat]
    simp only [Except.mapError, hperiod']
    rfl
  refine ⟨⟨by decide, by decide⟩, rfl, ?_⟩
  unfold flatnessAnalysis
  rw [hval]
  simp only [Except.mapError, hsort, hperiod, hmin]
  show (resample leapSecondGapsFrame "link" "bytes" halfSecond .bytes >>= _) = _
  rw [hg]
  show (Link.bandwidth g "link" "bytes" .bytes >>= _) = _
  rw [hbandwidth]
  rfl

end Pipeline

end FrameCache
