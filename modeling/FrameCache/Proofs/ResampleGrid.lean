import Mathlib
import FrameCache.Proofs.Buckets
import FrameCache.Proofs.WellFormed

/-!
# Resampling onto a uniform grid

`resample` truncates each row's timestamp to a bucket start on its local clock, collects the rows
into buckets by bucket start and link, and lays the buckets on a grid that runs from the earliest
bucket start to the latest by the resolution (`gridFrom`), with one cell per grid point and link.

Outside leap seconds a bucket start lies on the local grid of the resolution
(`Timestamp.truncate_of_not_leap`): its local time, counted in nanoseconds, is a multiple of the
resolution. When the offsets of the rows differ by whole multiples of the resolution (one offset,
or `+01:00` and `+02:00` across a change of daylight saving time at an hourly resolution), these
local grids are one grid on the time line. Every bucket start is then the earliest one moved by a
whole number of steps, at the instant of a point of the grid (`exists_sameInstant_mem_gridFrom`),
and resampling loses no row (`resample_fills_uniform_grid`): the output is the grid times the
links in byte order, and each cell holds the value of exactly the rows of its link that fall in
its bucket, in input order.

Rows whose offsets differ by a part of the resolution are truncated on different grids. A bucket
start off the grid of the earliest one is passed over when the cells are filled, and its rows are
lost (`mixedOffsets_row_lost`).
-/

namespace FrameCache

namespace Timestamp

variable {t u v y b : Timestamp} {d step : TimeDelta}

/-- Moving a timestamp keeps its offset. -/
theorem offset_addDelta? (h : t.addDelta? d = some u) : u.offset = t.offset := by
  unfold addDelta? at h
  simp only at h
  split at h
  · exact (ofParts?_eq_some h).2.2
  · split_ifs at h
    all_goals exact (ofParts?_eq_some h).2.2

/-- Every timestamp counts less than one second past the last supported second. -/
theorem linear_lt_maxSecond (y : Timestamp) : y.linear < (maxSecond + 1) * 1000000000 := by
  have := y.le_max
  have := y.nano_lt
  unfold linear
  split <;> omega

/-- Outside a leap second, a timestamp can be moved forward by a positive span as long as some
timestamp lies at least that span after it. -/
theorem addDelta?_isSome (hd : 0 < d.nanos) (ht : ¬ t.IsLeap) (hy : t.linear + d.nanos ≤ y.linear) :
    ∃ u, t.addDelta? d = some u := by
  -- the target lies on the time line before the end of the last supported second
  have hhigh := linear_lt_maxSecond y
  have hmin := t.min_le
  have hnano : t.nano < 1000000000 := Nat.lt_of_not_le ht
  rw [addDelta?_of_not_leap ht]
  rw [linear_of_not_leap ht] at hy ⊢
  exact ofParts?_isSome (by omega) (by omega) (by omega)

/-- Stepping from a timestamp is stepping from the one a step after it, one step fewer. -/
theorem advance_succ_of_addDelta? (h : t.addDelta? step = some u) :
    ∀ j, t.advance step (j + 1) = u.advance step j
  | 0 => by simp [advance, h]
  | j + 1 => by
    rw [advance, advance_succ_of_addDelta? h j]
    rfl

/-- Outside a leap second, the steps from a timestamp exist as far as some timestamp lies ahead. -/
theorem advance_isSome (hd : 0 < step.nanos) (ht : ¬ t.IsLeap) :
    ∀ m : Nat, t.linear + m * step.nanos ≤ y.linear → ∃ u, t.advance step m = some u
  | 0, _ => ⟨t, rfl⟩
  | m + 1, hm => by
    have hm' : t.linear + m * step.nanos + step.nanos ≤ y.linear := by
      push_cast at hm
      rw [Int.add_mul, Int.one_mul] at hm
      omega
    obtain ⟨u, hu⟩ := advance_isSome hd ht m (by omega)
    obtain ⟨hlin, hleap⟩ := advance_linear hd hu
    obtain ⟨v, hv⟩ := addDelta?_isSome (y := y) hd (fun h => ht (hleap h)) (by omega)
    exact ⟨v, by rw [advance_succ_of_eq hu, hv]⟩

/-- Outside leap seconds, timestamps at one count on the time line are at one instant. -/
theorem sameInstant_of_linear_eq (ht : ¬ t.IsLeap) (hu : ¬ u.IsLeap) (hl : t.linear = u.linear) :
    t.sameInstant u = true := by
  rw [linear_of_not_leap ht, linear_of_not_leap hu] at hl
  unfold IsLeap at ht hu
  have hs : t.second = u.second := by omega
  have hn : t.nano = u.nano := by omega
  simp [sameInstant, instant, hs, hn]

/-- Outside leap seconds, timestamps at one count on the time line and at one offset are equal. -/
theorem eq_of_linear_eq (ht : ¬ t.IsLeap) (hu : ¬ u.IsLeap) (hl : t.linear = u.linear)
    (ho : t.offset = u.offset) : t = u := by
  rw [linear_of_not_leap ht, linear_of_not_leap hu] at hl
  unfold IsLeap at ht hu
  obtain ⟨ts, tn, toff, _, _, _⟩ := t
  obtain ⟨us, un, uoff, _, _, _⟩ := u
  simp only at hl ho ht hu
  have hs : ts = us := by omega
  have hn : tn = un := by omega
  subst hs hn ho
  rfl

/-- Outside a leap second, truncating to a positive span keeps the offset and gives a timestamp
outside a leap second, earlier on the time line by the local time, in nanoseconds, modulo the span. -/
theorem truncate_spec_of_not_leap {span : TimeDelta} (hs : 0 < span.nanos) (ht : ¬ t.IsLeap)
    (h : t.truncate span = .ok b) :
    b.offset = t.offset ∧ ¬ b.IsLeap ∧
      b.linear = t.linear - (t.linear + t.offset.seconds * 1000000000) % span.nanos := by
  have hlocal : ∀ stamp, t.localNanos? = some stamp → stamp = t.linear + t.offset.seconds * 1000000000 := by
    intro stamp hstamp
    unfold localNanos? at hstamp
    dsimp only at hstamp
    split at hstamp
    · cases hstamp
      have hn : (nanosPerSecond : Int) = 1000000000 := rfl
      rw [linear_of_not_leap ht, localSecond, hn]
      omega
    · cases hstamp
  unfold truncate at h
  split at h
  · cases h
  · rename_i s hspan
    have hseq : s = span.nanos := by
      unfold TimeDelta.toInt64Nanos? at hspan
      split at hspan
      · exact (Option.some.inj hspan).symm
      · cases hspan
    subst hseq
    rw [if_neg (by omega)] at h
    split at h
    · cases h
    · rename_i stamp hstamp
      have hst := hlocal stamp hstamp
      dsimp only at h
      split at h
      · -- the local time is on the grid already
        rename_i hdown
        cases h
        exact ⟨rfl, ht, by rw [← hst, hdown, Int.sub_zero]⟩
      · rename_i hdown
        split at h
        · cases h
        · rename_i d hd
          have hdn : d.nanos = stamp % span.nanos := by
            unfold TimeDelta.ofNanos? at hd
            split at hd
            · cases hd
              rfl
            · cases hd
          have hpos : 0 < d.nanos := by
            have := Int.emod_nonneg stamp (show span.nanos ≠ 0 by omega)
            omega
          split at h
          · rename_i r hr
            cases h
            obtain ⟨hlin, hnl, -⟩ := subDelta?_of_not_leap hpos ht hr
            exact ⟨offset_addDelta? hr, hnl, by rw [hlin, hdn, hst]⟩
          · cases h

/-- Outside a leap second, truncating to a positive span keeps the offset and gives a timestamp
outside a leap second whose local time, in nanoseconds, is a multiple of the span. -/
theorem truncate_of_not_leap {span : TimeDelta} (hs : 0 < span.nanos) (ht : ¬ t.IsLeap)
    (h : t.truncate span = .ok b) :
    b.offset = t.offset ∧ ¬ b.IsLeap ∧ (b.linear + t.offset.seconds * 1000000000) % span.nanos = 0 := by
  obtain ⟨hoff, hnl, hlin⟩ := truncate_spec_of_not_leap hs ht h
  refine ⟨hoff, hnl, ?_⟩
  set stamp := t.linear + t.offset.seconds * 1000000000
  have : b.linear + t.offset.seconds * 1000000000 = stamp - stamp % span.nanos := by omega
  rw [this, Int.sub_emod, Int.emod_emod_of_dvd _ (Int.dvd_refl _), Int.sub_self, Int.zero_emod]

/-- Outside a leap second, the bucket a timestamp truncates to starts at most a span before it. -/
theorem truncate_linear_bounds {span : TimeDelta} (hs : 0 < span.nanos) (ht : ¬ t.IsLeap)
    (h : t.truncate span = .ok b) : b.linear ≤ t.linear ∧ t.linear < b.linear + span.nanos := by
  obtain ⟨-, -, hlin⟩ := truncate_spec_of_not_leap hs ht h
  have h₁ := Int.emod_nonneg (t.linear + t.offset.seconds * 1000000000) (show span.nanos ≠ 0 by omega)
  have h₂ := Int.emod_lt_of_pos (t.linear + t.offset.seconds * 1000000000) hs
  omega

/-- Stepping keeps the offset. -/
theorem offset_advance : ∀ {j u}, t.advance step j = some u → u.offset = t.offset
  | 0, u, h => by
    cases h
    rfl
  | j + 1, u, h => by
    obtain ⟨v, hv, hu⟩ := advance_succ_eq_some h
    rw [offset_addDelta? hu, offset_advance hv]

/-- A walk of one step or more starts with one step. -/
theorem advance_succ_eq_some_first : ∀ {m u}, t.advance step (m + 1) = some u →
    ∃ v, t.addDelta? step = some v ∧ v.advance step m = some u
  | 0, u, h => ⟨u, by simpa [advance] using h, rfl⟩
  | m + 1, u, h => by
    obtain ⟨w, hw, hu⟩ := advance_succ_eq_some h
    obtain ⟨v, hv, hvw⟩ := advance_succ_eq_some_first hw
    exact ⟨v, hv, by rw [advance_succ_of_eq hvw, hu]⟩

end Timestamp

section Grid

variable {last x : Timestamp} {step : TimeDelta}

/-- The grid's points are the steps from its start, in order. -/
theorem gridFrom_getElem? : ∀ (fuel : Nat) (t : Timestamp) (k : Nat),
    k < (gridFrom last step fuel t).length → (gridFrom last step fuel t)[k]? = t.advance step k
  | 0, t, k, hk => absurd hk (by simp [gridFrom])
  | fuel + 1, t, k, hk => by
    by_cases ht : t ≤ last
    swap
    · simp [gridFrom, ht] at hk
    cases k with
    | zero => simp [gridFrom, ht]
    | succ k =>
      cases hv : t.addDelta? step with
      | none => simp [gridFrom, ht, hv] at hk
      | some v =>
        simp only [gridFrom, ht, if_true, hv, List.length_cons, List.getElem?_cons_succ] at hk ⊢
        rw [Timestamp.advance_succ_of_addDelta? hv]
        exact gridFrom_getElem? fuel v k (by omega)

/-- Every point of a grid is at or after its start. -/
theorem le_of_mem_gridFrom (hd : 0 < step.nanos) :
    ∀ (fuel : Nat) (t : Timestamp), x ∈ gridFrom last step fuel t → t ≤ x
  | 0, t, hx => by simp [gridFrom] at hx
  | fuel + 1, t, hx => by
    by_cases ht : t ≤ last
    · simp only [gridFrom, ht, if_true] at hx
      rcases List.mem_cons.1 hx with rfl | hx
      · exact le_refl _
      · split at hx
        · rename_i v hv
          exact le_of_lt (lt_of_lt_of_le (Timestamp.addDelta?_of_pos hd hv).2.2
            (le_of_mem_gridFrom hd fuel v hx))
        · cases hx
    · simp [gridFrom, ht] at hx

/-- The points of a grid by a positive step increase strictly. -/
theorem pairwise_gridFrom (hd : 0 < step.nanos) :
    ∀ (fuel : Nat) (t : Timestamp), (gridFrom last step fuel t).Pairwise (· < ·)
  | 0, t => by simp [gridFrom]
  | fuel + 1, t => by
    by_cases ht : t ≤ last
    · simp only [gridFrom, ht, if_true]
      split
      · rename_i v hv
        have htv := (Timestamp.addDelta?_of_pos hd hv).2.2
        exact List.pairwise_cons.2 ⟨fun x hx => lt_of_lt_of_le htv (le_of_mem_gridFrom hd fuel v hx),
          pairwise_gridFrom hd fuel v⟩
      · exact List.pairwise_singleton _ _
    · simp [gridFrom, ht]

/-- A step from the start of a grid that is not after its end, within the fuel, is a point of
the grid. -/
theorem mem_gridFrom_of_advance (hd : 0 < step.nanos) :
    ∀ (m fuel : Nat) (t u : Timestamp), m < fuel → t.advance step m = some u → u ≤ last →
      u ∈ gridFrom last step fuel t
  | _, 0, _, _, hm, _, _ => absurd hm (Nat.not_lt_zero _)
  | 0, fuel + 1, t, u, _, hu, hlast => by
    simp only [Timestamp.advance_zero, Option.some.injEq] at hu
    subst hu
    simp [gridFrom, hlast]
  | m + 1, fuel + 1, t, u, hm, hu, hlast => by
    obtain ⟨v, hv, hvu⟩ := Timestamp.advance_succ_eq_some_first hu
    have htu : t < u := Timestamp.advance_lt_advance hd (Nat.succ_pos m) rfl hu
    simp only [gridFrom, le_of_lt (lt_of_lt_of_le htu hlast), if_true, hv]
    exact List.mem_cons_of_mem _ (mem_gridFrom_of_advance hd m fuel v u (by omega) hvu hlast)

/-- Outside leap seconds, stepping from the start of a grid as far as a timestamp between its ends,
a whole number of steps after the start on the time line, reaches a point of the grid at the
timestamp's count: the fuel of the walk covers the whole distance. -/
theorem exists_advance_mem_gridFrom {first b : Timestamp} (hd : 0 < step.nanos) (hf : ¬ first.IsLeap)
    (hl : ¬ last.IsLeap) (hb : ¬ b.IsLeap) (hdvd : step.nanos ∣ b.linear - first.linear)
    (hfb : first ≤ b) (hbl : b ≤ last) :
    ∃ k u, first.advance step k = some u ∧ u.linear = b.linear ∧
      u ∈ gridFrom last step (first.stepBound last step) first := by
  -- the number of steps from the start to `b`
  have hd0 : 0 ≤ b.linear - first.linear := by
    rw [Timestamp.le_iff_linear hf hb] at hfb
    omega
  have hq : 0 ≤ (b.linear - first.linear) / step.nanos := Int.ediv_nonneg hd0 (Int.le_of_lt hd)
  have hmd : (((b.linear - first.linear) / step.nanos).toNat : Int) * step.nanos = b.linear - first.linear := by
    rw [Int.toNat_of_nonneg hq]
    exact Int.ediv_mul_cancel hdvd
  obtain ⟨u, hu⟩ := Timestamp.advance_isSome (y := b) hd hf ((b.linear - first.linear) / step.nanos).toNat
    (by omega)
  obtain ⟨hlin, hleap⟩ := Timestamp.advance_linear hd hu
  have hul : ¬ u.IsLeap := fun h => hf (hleap h)
  have hub : u.linear = b.linear := by omega
  have hlast : u.linear ≤ last.linear := hub ▸ (Timestamp.le_iff_linear hb hl).1 hbl
  refine ⟨_, u, hu, hub, mem_gridFrom_of_advance hd _ _ first u ?_ hu ((Timestamp.le_iff_linear hul hl).2 hlast)⟩
  -- the steps fit in the distance to the end, which the bound exceeds
  have hcount : last.nanoCount - first.nanoCount = last.linear - first.linear := by
    rw [Timestamp.linear_of_not_leap hl, Timestamp.linear_of_not_leap hf]
    rfl
  have hle : (b.linear - first.linear) / step.nanos ≤
      (last.nanoCount - first.nanoCount + 2000000000) / step.nanos :=
    Int.ediv_le_ediv hd (by omega)
  unfold Timestamp.stepBound
  omega

/-- Outside leap seconds, a timestamp between the ends of a grid, at the offset of its start and
a whole number of steps after it, is a point of the grid. -/
theorem mem_gridFrom_of_onGrid {first b : Timestamp} (hd : 0 < step.nanos) (hf : ¬ first.IsLeap)
    (hl : ¬ last.IsLeap) (hb : ¬ b.IsLeap) (ho : b.offset = first.offset)
    (hdvd : step.nanos ∣ b.linear - first.linear) (hfb : first ≤ b) (hbl : b ≤ last) :
    b ∈ gridFrom last step (first.stepBound last step) first := by
  obtain ⟨k, u, hu, hub, hmem⟩ := exists_advance_mem_gridFrom hd hf hl hb hdvd hfb hbl
  have hul : ¬ u.IsLeap := fun h => hf ((Timestamp.advance_linear hd hu).2 h)
  rwa [← Timestamp.eq_of_linear_eq hul hb hub (by rw [Timestamp.offset_advance hu, ho])]

/-- Outside leap seconds, a timestamp between the ends of a grid and a whole number of steps after
its start on the time line is at the instant of a point of the grid, whatever its offset. -/
theorem exists_sameInstant_mem_gridFrom {first b : Timestamp} (hd : 0 < step.nanos) (hf : ¬ first.IsLeap)
    (hl : ¬ last.IsLeap) (hb : ¬ b.IsLeap) (hdvd : step.nanos ∣ b.linear - first.linear)
    (hfb : first ≤ b) (hbl : b ≤ last) :
    ∃ u ∈ gridFrom last step (first.stepBound last step) first, u.sameInstant b = true := by
  obtain ⟨k, u, hu, hub, hmem⟩ := exists_advance_mem_gridFrom hd hf hl hb hdvd hfb hbl
  have hul : ¬ u.IsLeap := fun h => hf ((Timestamp.advance_linear hd hu).2 h)
  exact ⟨u, hmem, Timestamp.sameInstant_of_linear_eq hul hb hub⟩

end Grid

section Keys

/-- Keys of timestamps in order come in order, whatever the links. -/
theorem sampleKey_lt_of_lt {t u : Timestamp} (h : t < u) (l m : String) : sampleKey t l < sampleKey u m := by
  rw [sampleKey_lt_iff]
  rw [Timestamp.lt_iff] at h
  rcases h with h | ⟨hs, hn⟩
  · exact .inl h
  · exact .inr ⟨hs, .inl hn⟩

/-- Keys in order have their timestamps in order. -/
theorem le_of_sampleKey_le {t u : Timestamp} {l m : String} (h : sampleKey t l ≤ sampleKey u m) :
    t ≤ u := by
  rw [Timestamp.le_iff]
  simp only [sampleKey, Prod.Lex.toLex_le_toLex] at h
  rcases h with h | ⟨hs, hn | ⟨hn, -⟩⟩
  · exact .inl h
  · exact .inr ⟨hs, Nat.le_of_lt hn⟩
  · exact .inr ⟨hs, Nat.le_of_eq hn⟩

/-- Grid cells, points in increasing order each with links in increasing order, come in
increasing order of key. -/
theorem pairwise_cells {grid : List Timestamp} {links : List String}
    (hg : grid.Pairwise (· < ·)) (hl : links.Pairwise (· < ·)) :
    ((grid.flatMap fun t => links.map fun l => (t, l)).map fun c => sampleKey c.1 c.2).Pairwise (· < ·) := by
  rw [List.map_flatMap, List.pairwise_flatMap]
  refine ⟨fun t _ => ?_, hg.imp fun htu => ?_⟩
  · rw [List.map_map, List.pairwise_map]
    exact hl.imp fun hlm => sampleKey_lt_iff.2 (.inr ⟨rfl, .inr ⟨rfl, hlm⟩⟩)
  · intro x hx y hy
    rw [List.map_map] at hx hy
    obtain ⟨l, -, rfl⟩ := List.mem_map.1 hx
    obtain ⟨m, -, rfl⟩ := List.mem_map.1 hy
    exact sampleKey_lt_of_lt htu l m

/-- The distinct texts of a list are its texts, each once, in increasing order. -/
theorem distinctTexts_spec (xs : List String) :
    (distinctTexts xs).Pairwise (· < ·) ∧ ∀ l, l ∈ distinctTexts xs ↔ l ∈ xs := by
  have hk : KeyedRuns (id : String → String) id (fun u x => decide (u = x)) (fun u _ => u) id :=
    ⟨fun _ _ => decide_eq_true_iff, fun _ _ => rfl, fun _ => rfl⟩
  have hs := List.pairwise_mergeSort' (· ≤ ·) xs
  obtain ⟨hinc, hkeys, -⟩ := foldRuns_sorted hk hs
  rw [List.map_id] at hinc hkeys
  refine ⟨hinc, fun l => ?_⟩
  rw [distinctTexts, hkeys]
  simp [List.mem_mergeSort]

/-- The links of the buckets are the links of the rows. -/
theorem mem_links_collectBuckets {rows : List (Timestamp × String × Double)} {l : String} :
    l ∈ (collectBuckets rows).map (·.link) ↔ ∃ r ∈ rows, r.2.1 = l := by
  have hkeys := (collectBuckets_spec rows).2.1
  constructor
  · rintro hl
    obtain ⟨b, hb, rfl⟩ := List.mem_map.1 hl
    obtain ⟨r, hr, hk⟩ := (hkeys b.key).1 (List.mem_map_of_mem hb)
    exact ⟨r, hr, (sampleKey_eq_iff.1 hk).2⟩
  · rintro ⟨r, hr, rfl⟩
    obtain ⟨b, hb, hk⟩ := List.mem_map.1 ((hkeys _).2 ⟨r, hr, rfl⟩)
    exact List.mem_map.2 ⟨b, hb, (sampleKey_eq_iff.1 hk).2⟩

/-- The value of the cell of a key, read from the buckets of rows, is the cell value of exactly
the rows of that key, in input order. -/
theorem value_find_collectBuckets (kind : DataKind) (rows : List (Timestamp × String × Double))
    (t : Timestamp) (l : String) :
    Bucket.value kind ((collectBuckets rows).find? fun b => b.hasKey t l) =
      cellValue kind ((rows.filter fun r => sampleKey r.1 r.2.1 = sampleKey t l).map (·.2.2)) := by
  obtain ⟨-, hkeys, hvals⟩ := collectBuckets_spec rows
  cases hfind : (collectBuckets rows).find? fun b => b.hasKey t l with
  | some b =>
    have hkey := Bucket.hasKey_iff.1 (List.find?_some hfind)
    rw [(hvals b (List.mem_of_find?_eq_some hfind)).2 kind, ← hkey]
  | none =>
    -- no bucket has the key, so no row has it
    have hnone : rows.filter (fun r => sampleKey r.1 r.2.1 = sampleKey t l) = [] := by
      rw [List.filter_eq_nil_iff]
      intro r hr hk
      obtain ⟨b, hb, hbk⟩ := List.mem_map.1 ((hkeys _).2 ⟨r, hr, rfl⟩)
      refine List.find?_eq_none.1 hfind b hb (Bucket.hasKey_iff.2 ?_)
      rw [hbk]
      exact (of_decide_eq_true hk).symm
    rw [hnone, value_none]
    rfl

end Keys

section Output

variable {f g : Frame} {linkColumn dataColumn : String} {res : TimeDelta} {kind : DataKind}
  {links : Array String} {values : Array Double}

/-- The bucket start of a timestamp at a resolution: its truncation, where that succeeds. -/
def bucketStart (res : TimeDelta) (t : Timestamp) : Timestamp :=
  match t.truncate res with
  | .ok b => b
  | .error _ => t

/-- The buckets of rows at a resolution. -/
def rowBuckets (res : TimeDelta) (rows : List ((Timestamp × String) × Double)) : List Bucket :=
  collectBuckets (rows.map fun r => (bucketStart res r.1.1, r.1.2, r.2))

/-- A list related element by element to `xs` by a relation that fixes each image is the map
of `xs`. -/
theorem eq_map_of_forall₂ {α β : Type} {R : α → β → Prop} {k : α → β} {xs : List α} {ys : List β}
    (h : List.Forall₂ R xs ys) (hk : ∀ x y, R x y → y = k x) : ys = xs.map k := by
  induction h with
  | nil => rfl
  | cons hxy _ ih => rw [List.map_cons, hk _ _ hxy, ih]

/-- No column reads both as texts and as doubles. -/
theorem ne_of_textColumn_of_floatColumn {a b : String} {xs : Array String} {ys : Array Double}
    (ha : f.textColumn a = .ok xs) (hb : f.floatColumn b = .ok ys) : a ≠ b := by
  rintro rfl
  unfold Frame.textColumn at ha
  unfold Frame.floatColumn at hb
  cases hc : f.column a with
  | error e => simp [hc, bind, Except.bind] at ha
  | ok c =>
    simp only [hc, bind, Except.bind] at ha hb
    cases c <;> simp_all [pure, Except.pure, throw, throwThe, MonadExceptOf.throw]

/-- A successful resampling: the resolution is positive, every row's timestamp truncates to its
bucket start, and the output lists the cells of the grid of the rows' buckets: grid points as the
index, links as the link column and cell values as the data column. -/
theorem resample_eq_ok (hlinks : f.textColumn linkColumn = .ok links)
    (hvalues : f.floatColumn dataColumn = .ok values)
    (hg : resample f linkColumn dataColumn res kind = .ok g) :
    0 < res.nanos ∧
      (∀ r ∈ sampleRows f.index links values, r.1.1.truncate res = .ok (bucketStart res r.1.1)) ∧
      g.index.toList = (gridCells res (rowBuckets res (sampleRows f.index links values))).map (·.1) ∧
      g.textColumn linkColumn =
        .ok ((gridCells res (rowBuckets res (sampleRows f.index links values))).map (·.2)).toArray ∧
      g.floatColumn dataColumn = .ok (fillCells kind (gridCells res (rowBuckets res (sampleRows f.index links values)))
        (rowBuckets res (sampleRows f.index links values))).toArray := by
  unfold resample at hg
  split at hg
  · simp [throw, throwThe, MonadExceptOf.throw, bind, Except.bind] at hg
  · rename_i hpos
    simp only [Except.bind_eq_ok] at hg
    obtain ⟨links', hl, values', hv, bucketed, hb, g₁, h₁, h₂⟩ := hg
    rw [hlinks] at hl
    rw [hvalues] at hv
    simp only [Except.mapError, Except.ok.injEq] at hl hv
    subst hl hv
    -- each row is bucketed at its bucket start, with its link and value
    have hrel : List.Forall₂ (fun x y => x.1.1.truncate res = .ok (bucketStart res x.1.1) ∧
        y = (bucketStart res x.1.1, x.1.2, x.2)) (sampleRows f.index links values) bucketed := by
      refine (mapM_eq_ok_iff.1 hb).imp fun x y hxy => ?_
      simp only [bind, Except.bind] at hxy
      split at hxy
      · cases hxy
      · split at hxy
        · rename_i b htrunc
          simp only [pure, Except.pure, Except.ok.injEq] at hxy
          have hstart : bucketStart res x.1.1 = b := by simp only [bucketStart, htrunc]
          rw [hstart]
          exact ⟨htrunc, hxy.symm⟩
        · simp [throw, throwThe, MonadExceptOf.throw] at hxy
    obtain ⟨htrunc, hmap⟩ := (List.forall₂_and_left _ _).1 hrel
    have hbucketed := eq_map_of_forall₂ hmap fun _ _ h => h
    subst hbucketed
    -- the output has the link column, then the data column
    have hne := ne_of_textColumn_of_floatColumn hlinks hvalues
    have h₁' := Except.mapError_eq_ok.1 h₁
    have h₂' := Except.mapError_eq_ok.1 h₂
    rw [Frame.insertColumn_of_not_mem (Frame.size_of_insertColumn h₁')
      (by simp [Frame.columnNames, Frame.withIndexName, Frame.ofIndex])] at h₁'
    cases h₁'
    rw [Frame.insertColumn_of_not_mem (Frame.size_of_insertColumn h₂')
      (by simp [Frame.columnNames, Frame.withIndexName, Frame.ofIndex, Ne.symm hne])] at h₂'
    cases h₂'
    refine ⟨by omega, htrunc, by simp [Frame.withIndexName, Frame.ofIndex, rowBuckets], ?_, ?_⟩
    · simp [Frame.textColumn, Frame.column, Frame.withIndexName, Frame.ofIndex, rowBuckets, bind,
        Except.bind, pure, Except.pure]
    · simp [Frame.floatColumn, Frame.column, Frame.withIndexName, Frame.ofIndex, rowBuckets, hne, bind,
        Except.bind, pure, Except.pure]

/-- A timestamp that truncates truncates to its bucket start. -/
theorem truncate_eq_bucketStart {t : Timestamp} (h : (t.truncate res).isOk = true) :
    t.truncate res = .ok (bucketStart res t) := by
  unfold bucketStart
  cases ht : t.truncate res with
  | ok b => rfl
  | error e =>
    rw [ht] at h
    cases h

/-- One cell step adds one value. -/
theorem length_fillStep (kind : DataKind) (acc : List Double × List Bucket) (c : Timestamp × String) :
    (fillStep kind acc c).1.length = acc.1.length + 1 := by
  obtain ⟨t, l⟩ := c
  unfold fillStep
  dsimp only
  split
  · split <;> rfl
  · rfl

/-- Every cell gets one value. -/
theorem length_fillCells (kind : DataKind) (cells : List (Timestamp × String)) (buckets : List Bucket) :
    (fillCells kind cells buckets).length = cells.length := by
  have hfold : ∀ (cells : List (Timestamp × String)) (acc : List Double × List Bucket),
      (cells.foldl (fillStep kind) acc).1.length = acc.1.length + cells.length := by
    intro cells
    induction cells with
    | nil => simp
    | cons c cs ih =>
      intro acc
      rw [List.foldl_cons, ih, length_fillStep, List.length_cons]
      omega
  rw [fillCells, List.length_reverse, hfold]
  exact Nat.zero_add _

/-- Resampling succeeds when the resolution is positive, the link and data columns are there,
and every row's local time is in range and truncates. -/
theorem resample_isOk (hd : 0 < res.nanos) (hlinks : f.textColumn linkColumn = .ok links)
    (hvalues : f.floatColumn dataColumn = .ok values)
    (hrows : ∀ r ∈ sampleRows f.index links values,
      r.1.1.localInRange = true ∧ (r.1.1.truncate res).isOk = true) :
    ∃ g, resample f linkColumn dataColumn res kind = .ok g := by
  have hne := ne_of_textColumn_of_floatColumn hlinks hvalues
  unfold resample
  split
  · omega
  simp only [hlinks, hvalues, Except.mapError, bind, Except.bind]
  rw [mapM_eq_ok_map (k := fun r => (bucketStart res r.1.1, r.1.2, r.2))]
  · dsimp only
    rw [Frame.insertColumn_of_not_mem (by simp [Column.size, Frame.size, Frame.withIndexName, Frame.ofIndex])
      (by simp [Frame.columnNames, Frame.withIndexName, Frame.ofIndex])]
    dsimp only
    rw [Frame.insertColumn_of_not_mem (by simp [Column.size, Frame.size, Frame.withIndexName, Frame.ofIndex,
      length_fillCells]) (by simp [Frame.columnNames, Frame.withIndexName, Frame.ofIndex, Ne.symm hne])]
    exact ⟨_, rfl⟩
  · intro r hr
    simp only [CacheError.requireLocal, Timestamp.checkLocal, (hrows r hr).1,
      truncate_eq_bucketStart (hrows r hr).2, if_true, Except.mapError]
    rfl

/-- The cell of a grid point and a link holds the value of the rows of that link whose bucket
starts at the instant of the point, in input order. -/
theorem value_find_rowBuckets (kind : DataKind) (rows : List ((Timestamp × String) × Double))
    (t : Timestamp) (l : String) :
    Bucket.value kind ((rowBuckets res rows).find? fun b => b.hasKey t l) =
      cellValue kind ((rows.filter fun r => (bucketStart res r.1.1).sameInstant t && r.1.2 == l).map (·.2)) := by
  rw [rowBuckets, value_find_collectBuckets, List.filter_map, List.map_map]
  congr 2
  refine List.filter_congr fun r _ => ?_
  rw [Function.comp_apply, Bool.eq_iff_iff, decide_eq_true_iff, sampleKey_eq_iff, Bool.and_eq_true,
    beq_iff_eq]

/-- Every bucket of rows starts at the bucket start of one of them. -/
theorem start_mem_rowBuckets {rows : List ((Timestamp × String) × Double)} {b : Bucket}
    (hb : b ∈ rowBuckets res rows) : ∃ r ∈ rows, b.start = bucketStart res r.1.1 := by
  obtain ⟨x, hx, hstart⟩ := ((collectBuckets_spec _).2.2 b hb).1
  obtain ⟨r, hr, rfl⟩ := List.mem_map.1 hx
  exact ⟨r, hr, hstart⟩

/-- The grid of buckets runs from the start of the first bucket to the start of the last. -/
theorem bucketGrid_cons (b : Bucket) (bs : List Bucket) :
    bucketGrid res (b :: bs) = gridFrom ((b :: bs).getLast (List.cons_ne_nil b bs)).start res
      (b.start.stepBound ((b :: bs).getLast (List.cons_ne_nil b bs)).start res) b.start :=
  rfl

/-- The grid of buckets is uniform: its points are the steps from one start. -/
theorem bucketGrid_uniform (res : TimeDelta) (buckets : List Bucket) :
    ∃ first : Timestamp, ∀ k < (bucketGrid res buckets).length,
      (bucketGrid res buckets)[k]? = first.advance res k := by
  cases buckets with
  | nil => exact ⟨default, fun k hk => absurd hk (by simp [bucketGrid])⟩
  | cons b bs =>
    rw [bucketGrid_cons]
    exact ⟨b.start, gridFrom_getElem? _ _⟩

/-- The points of the grid of buckets by a positive resolution increase strictly. -/
theorem pairwise_bucketGrid (hd : 0 < res.nanos) (buckets : List Bucket) :
    (bucketGrid res buckets).Pairwise (· < ·) := by
  cases buckets with
  | nil => simp [bucketGrid]
  | cons b bs =>
    rw [bucketGrid_cons]
    exact pairwise_gridFrom hd _ _

/-- In a list in strictly increasing order of key, every key is at most the last one. -/
theorem key_le_getLast {α κ : Type} [LinearOrder κ] {key : α → κ} {l : List α} (hne : l ≠ [])
    (h : (l.map key).Pairwise (· < ·)) {a : α} (ha : a ∈ l) : key a ≤ key (l.getLast hne) := by
  rw [← List.dropLast_append_getLast hne] at ha
  have hs := List.pairwise_map.1 h
  rw [← List.dropLast_append_getLast hne, List.pairwise_append] at hs
  rcases List.mem_append.1 ha with ha | ha
  · exact le_of_lt (hs.2.2 a ha _ (List.mem_singleton_self _))
  · rw [List.mem_singleton.1 ha]

/-- Outside leap seconds, the bucket start of a row lies on the local grid of the resolution at
the row's offset. -/
theorem bucketStart_onGrid {t : Timestamp} (hd : 0 < res.nanos)
    (htrunc : t.truncate res = .ok (bucketStart res t)) (ht : ¬ t.IsLeap) :
    ¬ (bucketStart res t).IsLeap ∧
      res.nanos ∣ (bucketStart res t).linear + t.offset.seconds * 1000000000 := by
  obtain ⟨-, hleap, hmod⟩ := Timestamp.truncate_of_not_leap hd ht htrunc
  exact ⟨hleap, Int.dvd_of_emod_eq_zero hmod⟩

/-- The bucket of every row lies between the first bucket and the last, which are in order of key. -/
theorem bucketStart_between (res : TimeDelta) {rows : List ((Timestamp × String) × Double)}
    {r : (Timestamp × String) × Double} (hr : r ∈ rows) :
    ∃ b bs, rowBuckets res rows = b :: bs ∧ b.start ≤ bucketStart res r.1.1 ∧
      bucketStart res r.1.1 ≤ ((b :: bs).getLast (List.cons_ne_nil b bs)).start := by
  obtain ⟨hsorted, hkeys, -⟩ := collectBuckets_spec (rows.map fun r => (bucketStart res r.1.1, r.1.2, r.2))
  -- the row's key is the key of some bucket
  obtain ⟨c, hc, hck⟩ := List.mem_map.1 ((hkeys (sampleKey (bucketStart res r.1.1) r.1.2)).2
    ⟨_, List.mem_map_of_mem hr, rfl⟩)
  change c ∈ rowBuckets res rows at hc
  change ((rowBuckets res rows).map Bucket.key).Pairwise (· < ·) at hsorted
  cases hB : rowBuckets res rows with
  | nil => rw [hB] at hc; cases hc
  | cons b bs =>
    rw [hB] at hc hsorted
    -- the first bucket has the least key and the last the greatest
    have hfirst : b.key ≤ c.key := by
      rcases List.mem_cons.1 hc with rfl | hc
      · exact le_refl _
      · exact le_of_lt ((List.pairwise_cons.1 (List.pairwise_map.1 hsorted)).1 c hc)
    have hlast := key_le_getLast (List.cons_ne_nil b bs) hsorted hc
    rw [hck] at hfirst hlast
    exact ⟨b, bs, rfl, le_of_sampleKey_le hfirst, le_of_sampleKey_le hlast⟩

/-- Outside leap seconds, when the offsets of the rows differ by whole multiples of the resolution,
the bucket start of every row is at the instant of a point of the grid of the rows' buckets: the
grid starts at the earliest bucket start, and the local grids of all offsets are one grid on the
time line. -/
theorem exists_sameInstant_bucketGrid {rows : List ((Timestamp × String) × Double)} (hd : 0 < res.nanos)
    (htrunc : ∀ r ∈ rows, r.1.1.truncate res = .ok (bucketStart res r.1.1))
    (hleap : ∀ r ∈ rows, ¬ r.1.1.IsLeap)
    (hcong : ∀ r ∈ rows, ∀ r' ∈ rows, res.nanos ∣ (r.1.1.offset.seconds - r'.1.1.offset.seconds) * 1000000000)
    {r : (Timestamp × String) × Double} (hr : r ∈ rows) :
    ∃ t ∈ bucketGrid res (rowBuckets res rows), t.sameInstant (bucketStart res r.1.1) = true := by
  have hgrid : ∀ r ∈ rows, ¬ (bucketStart res r.1.1).IsLeap ∧
      res.nanos ∣ (bucketStart res r.1.1).linear + r.1.1.offset.seconds * 1000000000 := fun r hr =>
    bucketStart_onGrid hd (htrunc r hr) (hleap r hr)
  -- each bucket starts at the bucket start of a row, which is not in a leap second
  have hstart : ∀ b ∈ rowBuckets res rows, ∃ r' ∈ rows, b.start = bucketStart res r'.1.1 :=
    fun b hb => start_mem_rowBuckets hb
  obtain ⟨b, bs, hB, hfirst, hlast⟩ := bucketStart_between res hr
  rw [hB] at hstart
  rw [hB, bucketGrid_cons]
  obtain ⟨r₀, hr₀, hb₀⟩ := hstart b List.mem_cons_self
  obtain ⟨r₁, hr₁, hb₁⟩ := hstart _ (List.getLast_mem (List.cons_ne_nil b bs))
  obtain ⟨hrl, hrd⟩ := hgrid r hr
  obtain ⟨h₀l, h₀d⟩ := hgrid r₀ hr₀
  rw [← hb₀] at h₀l h₀d
  -- the row's bucket start and the first differ by their local times and by their offsets, each
  -- a whole number of steps
  have hdvd : res.nanos ∣ (bucketStart res r.1.1).linear - b.start.linear := by
    have h := Int.dvd_sub (Int.dvd_sub hrd h₀d) (hcong r hr r₀ hr₀)
    rwa [show (bucketStart res r.1.1).linear + r.1.1.offset.seconds * 1000000000 -
      (b.start.linear + r₀.1.1.offset.seconds * 1000000000) -
      (r.1.1.offset.seconds - r₀.1.1.offset.seconds) * 1000000000 =
        (bucketStart res r.1.1).linear - b.start.linear by ring] at h
  exact exists_sameInstant_mem_gridFrom hd h₀l (hb₁ ▸ (hgrid r₁ hr₁).1) hrl hdvd hfirst hlast

/-- Resampling lays every link on one uniform grid, and when the offsets of the rows differ by
whole multiples of the resolution it loses no row. On success the output index is the points of a
grid of steps of the resolution from one start, each once per distinct link, links in byte order;
every row's timestamp truncates to its bucket start; and each cell holds the cell value of exactly
the rows of its link whose bucket starts at its instant, in input order. Outside leap seconds,
when any two rows' offsets differ by a whole number of resolutions, the bucket start of every row
is at the instant of a point of the grid. -/
theorem resample_fills_uniform_grid (hlinks : f.textColumn linkColumn = .ok links)
    (hvalues : f.floatColumn dataColumn = .ok values)
    (hg : resample f linkColumn dataColumn res kind = .ok g) :
    ∃ (first : Timestamp) (grid : List Timestamp) (linkSet : List String),
      (∀ k < grid.length, grid[k]? = first.advance res k) ∧
      linkSet.Pairwise (· < ·) ∧
      (∀ l, l ∈ linkSet ↔ ∃ r ∈ sampleRows f.index links values, r.1.2 = l) ∧
      (∀ r ∈ sampleRows f.index links values, r.1.1.truncate res = .ok (bucketStart res r.1.1)) ∧
      g.index.toList = grid.flatMap (fun t => linkSet.map fun _ => t) ∧
      g.textColumn linkColumn = .ok (grid.flatMap fun _ => linkSet).toArray ∧
      g.floatColumn dataColumn = .ok (grid.flatMap fun t => linkSet.map fun l =>
        cellValue kind (((sampleRows f.index links values).filter fun r =>
          (bucketStart res r.1.1).sameInstant t && r.1.2 == l).map (·.2))).toArray ∧
      ((∀ r ∈ sampleRows f.index links values, ¬ r.1.1.IsLeap) →
        (∀ r ∈ sampleRows f.index links values, ∀ r' ∈ sampleRows f.index links values,
          res.nanos ∣ (r.1.1.offset.seconds - r'.1.1.offset.seconds) * 1000000000) →
        ∀ r ∈ sampleRows f.index links values, ∃ t ∈ grid, t.sameInstant (bucketStart res r.1.1) = true) := by
  obtain ⟨hd, htrunc, hindex, htext, hfloat⟩ := resample_eq_ok hlinks hvalues hg
  set rows := sampleRows f.index links values
  set buckets := rowBuckets res rows
  obtain ⟨first, huniform⟩ := bucketGrid_uniform res buckets
  obtain ⟨hlinkSorted, hlinkMem⟩ := distinctTexts_spec (buckets.map (·.link))
  have hkeys : gridCells res buckets =
      (bucketGrid res buckets).flatMap fun t => (distinctTexts (buckets.map (·.link))).map fun l => (t, l) :=
    rfl
  -- the cells come in increasing order of key, so each reads the bucket of its key
  have hcells := fillCells_eq kind (pairwise_cells (pairwise_bucketGrid hd buckets) hlinkSorted)
    (show (buckets.map Bucket.key).Pairwise (· < ·) from (collectBuckets_spec _).1)
  refine ⟨first, bucketGrid res buckets, distinctTexts (buckets.map (·.link)), huniform, hlinkSorted,
    fun l => ?_, htrunc, ?_, ?_, ?_, ?_⟩
  · rw [hlinkMem]
    refine mem_links_collectBuckets.trans ⟨?_, ?_⟩
    · rintro ⟨x, hx, rfl⟩
      obtain ⟨r, hr, rfl⟩ := List.mem_map.1 hx
      exact ⟨r, hr, rfl⟩
    · rintro ⟨r, hr, rfl⟩
      exact ⟨_, List.mem_map_of_mem hr, rfl⟩
  · rw [hindex, hkeys]
    simp [List.map_flatMap]
  · rw [htext, hkeys]
    simp [List.map_flatMap]
  · rw [hfloat, hkeys, hcells, List.map_flatMap]
    congr 2
    refine congrArg₂ List.flatMap (funext fun t => ?_) rfl
    rw [List.map_map]
    exact List.map_congr_left fun l _ => value_find_rowBuckets kind rows t l
  · intro hleap hcong r hr
    exact exists_sameInstant_bucketGrid hd htrunc hleap hcong hr

/-- An hour. -/
def hourDelta : TimeDelta := (TimeDelta.ofNanos? 3600000000000).getD default

/-- Half an hour east of UTC. -/
def halfHourEast : Offset := (Offset.ofSeconds? 1800).getD default

/-- An hour later than 2023-11-14T22:13:20Z, at half an hour east of UTC. -/
def hourLaterHalfHourEast : Timestamp := (Timestamp.ofParts? 1700003600 0 halfHourEast).getD default

/-- Byte counts 1 and 2. -/
def oneTwoBytes : Array Double := #[⟨0x3FF0000000000000⟩, ⟨0x4000000000000000⟩]

/-- 2023-10-29T00:30:00+02:00, before clocks in central Europe went back an hour. -/
def beforeDstEnd : Timestamp := (Timestamp.ofParts? 1698532200 0 ((Offset.ofSeconds? 7200).getD default)).getD default

/-- 2023-10-29T02:30:00+01:00, after clocks went back. -/
def afterDstEnd : Timestamp := (Timestamp.ofParts? 1698543000 0 ((Offset.ofSeconds? 3600).getD default)).getD default

/-- Two rows of link `a` across the end of daylight saving time, at `+02:00` and then `+01:00`. -/
def acrossDstFrame : Frame where
  index := #[beforeDstEnd, afterDstEnd]
  columns := [("link", .text #["a", "a"]), ("bytes", .float oneTwoBytes)]

/-- At an hourly resolution the two offsets of `acrossDstFrame` differ by a whole hour, so both
rows land on the grid. -/
theorem resample_fills_uniform_grid_acrossDst :
    (∀ r ∈ sampleRows acrossDstFrame.index #["a", "a"] oneTwoBytes, ¬ r.1.1.IsLeap) ∧
    (∀ r ∈ sampleRows acrossDstFrame.index #["a", "a"] oneTwoBytes,
      ∀ r' ∈ sampleRows acrossDstFrame.index #["a", "a"] oneTwoBytes,
        hourDelta.nanos ∣ (r.1.1.offset.seconds - r'.1.1.offset.seconds) * 1000000000) ∧
    acrossDstFrame.textColumn "link" = .ok #["a", "a"] ∧
    acrossDstFrame.floatColumn "bytes" = .ok oneTwoBytes ∧
    ∃ g, resample acrossDstFrame "link" "bytes" hourDelta .bytes = .ok g ∧
    ∃ (first : Timestamp) (grid : List Timestamp) (linkSet : List String),
      (∀ k < grid.length, grid[k]? = first.advance hourDelta k) ∧
      linkSet.Pairwise (· < ·) ∧
      (∀ l, l ∈ linkSet ↔ ∃ r ∈ sampleRows acrossDstFrame.index #["a", "a"] oneTwoBytes, r.1.2 = l) ∧
      (∀ r ∈ sampleRows acrossDstFrame.index #["a", "a"] oneTwoBytes,
        r.1.1.truncate hourDelta = .ok (bucketStart hourDelta r.1.1)) ∧
      g.index.toList = grid.flatMap (fun t => linkSet.map fun _ => t) ∧
      g.textColumn "link" = .ok (grid.flatMap fun _ => linkSet).toArray ∧
      g.floatColumn "bytes" = .ok (grid.flatMap fun t => linkSet.map fun l => cellValue .bytes
        (((sampleRows acrossDstFrame.index #["a", "a"] oneTwoBytes).filter fun r =>
          (bucketStart hourDelta r.1.1).sameInstant t && r.1.2 == l).map (·.2))).toArray ∧
      ((∀ r ∈ sampleRows acrossDstFrame.index #["a", "a"] oneTwoBytes, ¬ r.1.1.IsLeap) →
        (∀ r ∈ sampleRows acrossDstFrame.index #["a", "a"] oneTwoBytes,
          ∀ r' ∈ sampleRows acrossDstFrame.index #["a", "a"] oneTwoBytes,
            hourDelta.nanos ∣ (r.1.1.offset.seconds - r'.1.1.offset.seconds) * 1000000000) →
        ∀ r ∈ sampleRows acrossDstFrame.index #["a", "a"] oneTwoBytes,
          ∃ t ∈ grid, t.sameInstant (bucketStart hourDelta r.1.1) = true) := by
  have hlinks : acrossDstFrame.textColumn "link" = .ok #["a", "a"] := rfl
  have hvalues : acrossDstFrame.floatColumn "bytes" = .ok oneTwoBytes := rfl
  obtain ⟨g, hg⟩ : ∃ g, resample acrossDstFrame "link" "bytes" hourDelta .bytes = .ok g :=
    resample_isOk (by decide) hlinks hvalues (by decide)
  exact ⟨by decide, by decide, hlinks, hvalues, g, hg, resample_fills_uniform_grid hlinks hvalues hg⟩

/-- 22:30Z, at half an hour east of UTC. -/
def halfPastHalfHourEast : Timestamp := (Timestamp.ofParts? 1700001000 0 halfHourEast).getD default

/-- A row at UTC and a row an hour later at half an hour east of UTC, both of link `a`. -/
def mixedOffsetsFrame : Frame where
  index := #[firstSample, hourLaterHalfHourEast]
  columns := [("link", .text #["a", "a"]), ("bytes", .float oneTwoBytes)]

/-- Rows at two offsets are bucketed on two local grids. The first row's bucket starts at 22:00Z
and the grid steps by hours from there, while the second row's bucket starts at 22:30Z: no grid
point is at its instant, and its byte count is lost from the output. -/
theorem mixedOffsets_row_lost :
    ∃ g, resample mixedOffsetsFrame "link" "bytes" hourDelta .bytes = .ok g ∧
      hourLaterHalfHourEast.truncate hourDelta = .ok halfPastHalfHourEast ∧
      (∀ t ∈ g.index.toList, t.sameInstant halfPastHalfHourEast = false) ∧
      g.floatColumn "bytes" = .ok #[⟨0x3FF0000000000000⟩] := by
  have hlinks : mixedOffsetsFrame.textColumn "link" = .ok #["a", "a"] := rfl
  have hvalues : mixedOffsetsFrame.floatColumn "bytes" = .ok oneTwoBytes := rfl
  obtain ⟨g, hg⟩ : ∃ g, resample mixedOffsetsFrame "link" "bytes" hourDelta .bytes = .ok g :=
    resample_isOk (by decide) hlinks hvalues (by decide)
  obtain ⟨-, -, hindex, -, hfloat⟩ := resample_eq_ok hlinks hvalues hg
  -- the buckets come in order of instant: the first row's, then the second row's
  have hbuckets : rowBuckets hourDelta (sampleRows mixedOffsetsFrame.index #["a", "a"] oneTwoBytes) =
      [⟨⟨1699999200, 0, Offset.utc, by decide, by decide, by decide⟩, "a", ⟨0x3FF0000000000000⟩, 1⟩,
        ⟨halfPastHalfHourEast, "a", ⟨0x4000000000000000⟩, 1⟩] := by
    unfold rowBuckets collectBuckets
    rw [List.mergeSort_of_pairwise (by decide)]
    rfl
  have hlinkSet : distinctTexts ["a", "a"] = ["a"] := by
    unfold distinctTexts
    rw [List.mergeSort_of_pairwise (by decide)]
    rfl
  refine ⟨g, hg, rfl, ?_, ?_⟩
  · rw [hindex, hbuckets]
    simp only [gridCells, List.map_cons, List.map_nil, hlinkSet]
    decide
  · rw [hfloat, hbuckets]
    simp only [gridCells, List.map_cons, List.map_nil, hlinkSet]
    decide

end Output

end FrameCache
