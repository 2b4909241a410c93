import Mathlib
import FrameCache.Proofs.Runs
import FrameCache.Proofs.RollingWindows

/-!
# Rolling statistics of every link

`computeStats` groups a frame's rows by link and gives each link the rolling statistics of its
rows in time order. The groups come from `rowsByLink`, a run fold over the rows sorted by link
(`rowsByLink_spec`): one group per link, links in increasing byte order, and the rows of a link
in frame order, since merge sort keeps the order of rows of one link
(`filter_mergeSort_eq_filter`). Each group is then sorted by timestamp, rows at one instant
staying in frame order (`pairwise_mergeSort_increasing`).

Outside leap seconds every link's statistics are then those of the definition
(`computeStats_rolls_each_link`): entry `j` summarises the values of the rows up to the `j`-th
in that order whose timestamps lie in `(t_j - w, t_j]`. A later row at the instant `t_j` is
left out of entry `j`, although its timestamp lies in that interval
(`tiedRows_entry_leaves_out_later_tie`).
-/

namespace FrameCache

/-- Merge sort keeps in order the elements that a test selects when any two of them compare:
the selected elements of the sorted list are those of the list, in the same order. -/
theorem filter_mergeSort_eq_filter {α : Type} (le : α → α → Bool)
    (trans : ∀ a b c, le a b → le b c → le a c) (total : ∀ a b, le a b || le b a) {l : List α}
    {p : α → Bool} (hp : ∀ a ∈ l, ∀ b ∈ l, p a = true → p b = true → le a b = true) :
    (l.mergeSort le).filter p = l.filter p := by
  have hpw : (l.filter p).Pairwise fun a b => le a b = true := by
    refine List.pairwise_of_forall_mem_list fun a ha b hb => ?_
    rw [List.mem_filter] at ha hb
    exact hp a ha.1 b hb.1 ha.2 hb.2
  have hsub : (l.filter p).Sublist ((l.mergeSort le).filter p) := by
    have := (List.sublist_mergeSort trans total hpw (List.filter_sublist)).filter p
    rwa [List.filter_filter, List.filter_congr fun x _ => Bool.and_self (p x)] at this
  have hlen : (l.filter p).length = ((l.mergeSort le).filter p).length :=
    ((List.mergeSort_perm l le).filter p).length_eq.symm
  exact (hsub.eq_of_length hlen).symm

/-- Sorting increasing positions by their timestamps puts the timestamps in order and keeps
positions at one instant increasing. -/
theorem pairwise_mergeSort_increasing (t : Nat → Timestamp) {R : List Nat} (hR : R.Pairwise (· < ·)) :
    (R.mergeSort fun i j => decide (t i ≤ t j)).Pairwise fun i j => t i ≤ t j ∧ (t j ≤ t i → i < j) := by
  have trans : ∀ a b c, decide (t a ≤ t b) = true → decide (t b ≤ t c) = true → decide (t a ≤ t c) = true :=
    fun a b c hab hbc => by simp only [decide_eq_true_eq] at *; exact le_trans hab hbc
  have total : ∀ a b, (decide (t a ≤ t b) || decide (t b ≤ t a)) = true :=
    fun a b => by simpa using Timestamp.le_total _ _
  have hsorted := List.pairwise_mergeSort trans total R
  rw [List.pairwise_iff_forall_sublist] at hsorted ⊢
  intro a b hab
  have hle : t a ≤ t b := by simpa using hsorted hab
  refine ⟨hle, fun hba => ?_⟩
  -- the positions at the instant of `a` are kept in their order, and they increase
  let same := fun x => decide (t x ≤ t a ∧ t a ≤ t x)
  have hkeep := filter_mergeSort_eq_filter _ trans total (l := R) (p := same) fun x _ y _ hx hy => by
    simp only [same, decide_eq_true_eq] at hx hy ⊢
    exact le_trans hx.1 hy.2
  have hpair := hab.filter same
  simp only [same, List.filter_cons, le_refl, and_self, decide_true, hba, hle, List.filter_nil,
    if_true] at hpair
  rw [hkeep] at hpair
  exact (List.pairwise_iff_forall_sublist.1 hR) (hpair.trans List.filter_sublist)

/-- The rows gathered into a group: each new row goes before the ones so far. -/
theorem foldl_gather_rows (rest : List (String × Nat)) (g : String × List Nat) :
    rest.foldl (fun g x => (g.1, x.2 :: g.2)) g = (g.1, (rest.map (·.2)).reverse ++ g.2) := by
  induction rest generalizing g with
  | nil => rfl
  | cons x rest ih =>
    rw [List.foldl_cons, ih]
    simp

/-- The groups of `rowsByLink`: one per link, links in increasing order, and the rows of each
link in frame order. -/
theorem rowsByLink_spec (links : List String) :
    ((rowsByLink links).map (·.1)).Pairwise (· < ·) ∧
    (∀ l, l ∈ (rowsByLink links).map (·.1) ↔ l ∈ links) ∧
    ∀ g ∈ rowsByLink links, g.2 = (links.zipIdx.filter fun x => x.1 = g.1).map (·.2) := by
  have trans : ∀ a b c : String × Nat, decide (a.1 ≤ b.1) = true → decide (b.1 ≤ c.1) = true →
      decide (a.1 ≤ c.1) = true :=
    fun a b c hab hbc => by simp only [decide_eq_true_eq] at *; exact le_trans hab hbc
  have total : ∀ a b : String × Nat, (decide (a.1 ≤ b.1) || decide (b.1 ≤ a.1)) = true :=
    fun a b => by simpa using le_total a.1 b.1
  have hsorted : (links.zipIdx.mergeSort fun a b => decide (a.1 ≤ b.1)).Pairwise fun a b => a.1 ≤ b.1 :=
    (List.pairwise_mergeSort trans total _).imp fun h => by simpa using h
  have hk : KeyedRuns (fun x : String × Nat => x.1) (fun g : String × List Nat => g.1)
      (fun g x => decide (g.1 = x.1)) (fun g x => (g.1, x.2 :: g.2)) (fun x => (x.1, [x.2])) :=
    ⟨fun _ _ => decide_eq_true_iff, fun _ _ => rfl, fun _ => rfl⟩
  obtain ⟨hinc, hkeys, hfolds⟩ := foldRuns_sorted hk hsorted
  have hmap : rowsByLink links = (foldRuns (fun g x => decide (g.1 = x.1)) (fun g x => (g.1, x.2 :: g.2))
      (fun x => (x.1, [x.2])) (links.zipIdx.mergeSort fun a b => decide (a.1 ≤ b.1))).reverse.map
        fun g => (g.1, g.2.reverse) := by
    rw [rowsByLink, List.map_reverse]
  have hfst : (rowsByLink links).map (·.1) = (foldRuns (fun g x => decide (g.1 = x.1))
      (fun g x => (g.1, x.2 :: g.2)) (fun x => (x.1, [x.2]))
        (links.zipIdx.mergeSort fun a b => decide (a.1 ≤ b.1))).reverse.map (·.1) := by
    rw [hmap, List.map_map]
    rfl
  refine ⟨hfst ▸ hinc, fun l => ?_, fun g hg => ?_⟩
  · rw [hfst, hkeys]
    simp only [List.mem_mergeSort]
    conv_rhs => rw [← List.zipIdx_map_fst 0 links]
    rw [List.mem_map]
  · rw [hmap, List.mem_map] at hg
    obtain ⟨g', hg', rfl⟩ := hg
    obtain ⟨x₀, rest, hfilter, rfl⟩ := hfolds g' hg'
    -- the group's rows are its link's rows in sorted order, which are in frame order
    have hstable := filter_mergeSort_eq_filter _ trans total (l := links.zipIdx)
      (p := fun x => decide (x.1 = x₀.1)) fun a _ b _ ha hb => by
        simp only [decide_eq_true_eq] at ha hb ⊢
        rw [ha, hb]
    rw [foldl_gather_rows] at hfilter ⊢
    simp only at hfilter
    simp only [List.reverse_append, List.reverse_reverse, List.reverse_cons, List.reverse_nil,
      List.nil_append, List.singleton_append]
    rw [← hstable, hfilter, List.map_cons]

/-- The rows of a link in frame order increase, and they are the rows that name it. -/
theorem rowsOf_link (links : Array String) (l : String) :
    ((links.toList.zipIdx.filter fun x => x.1 = l).map (·.2)).Pairwise (· < ·) ∧
    ((links.toList.zipIdx.filter fun x => x.1 = l).map (·.2)).Perm
      ((List.range links.size).filter fun i => links[i]? = some l) := by
  have hsub : ((links.toList.zipIdx.filter fun x => x.1 = l).map (·.2)).Sublist
      (List.range' 0 links.toList.length) := by
    rw [← List.zipIdx_map_snd 0 links.toList]
    exact List.filter_sublist.map _
  have hinc : ((links.toList.zipIdx.filter fun x => x.1 = l).map (·.2)).Pairwise (· < ·) :=
    List.Pairwise.sublist hsub List.pairwise_lt_range'
  refine ⟨hinc, (List.perm_ext_iff_of_nodup (hinc.imp Nat.ne_of_lt) (List.nodup_range.filter _)).2
    fun i => ?_⟩
  simp only [List.mem_map, List.mem_filter, List.mem_zipIdx_iff_getElem?, decide_eq_true_eq,
    List.mem_range, Array.getElem?_toList]
  constructor
  · rintro ⟨⟨l', i'⟩, ⟨hget, rfl⟩, rfl⟩
    exact ⟨(Array.getElem?_eq_some_iff.1 hget).1, hget⟩
  · rintro ⟨-, hget⟩
    exact ⟨(l, i), ⟨hget, rfl⟩, rfl⟩

/-- A row's timestamp, where the frame has none the default one, is outside a leap second when
the index is. -/
theorem not_leap_getD {index : Array Timestamp} (hnl : ∀ t ∈ index, ¬ t.IsLeap) (i : Nat) :
    ¬ (index.getD i default).IsLeap := by
  rcases Nat.lt_or_ge i index.size with hi | hi
  · rw [getD_eq_getElem default hi]
    exact hnl _ (Array.getElem_mem hi)
  · simp only [Array.getD_eq_getD_getElem?, Array.getElem?_eq_none hi, Option.getD_none]
    decide

/-- With a positive window, a link column of texts and a value column of doubles, `computeStats`
gives one entry per link, links in increasing order, and each link the statistics of its rows
sorted by time, rows at one instant in frame order. -/
theorem computeStats_eq_ok (f : Frame) (linkColumn valueColumn : String) (w : TimeDelta)
    (minPeriods : Nat) {links : Array String} {values : Array Double} (hw : 0 < w.nanos)
    (hlinks : f.textColumn linkColumn = .ok links) (hvalues : f.floatColumn valueColumn = .ok values) :
    ∃ result, computeStats f linkColumn valueColumn w minPeriods = .ok result ∧
      (result.map (·.1)).Pairwise (· < ·) ∧ (∀ l, l ∈ result.map (·.1) ↔ l ∈ links) ∧
      ∀ l s, (l, s) ∈ result → ∃ rows : List Nat,
        rows.Perm ((List.range links.size).filter fun i => links[i]? = some l) ∧
        rows.Pairwise (fun i j => f.index.getD i default ≤ f.index.getD j default ∧
          (f.index.getD j default ≤ f.index.getD i default → i < j)) ∧
        s = linkStats (rows.map (f.index.getD · default)).toArray
          (rows.map (values.getD · Double.nan)).toArray w minPeriods := by
  let time := fun i => f.index.getD i default
  let statsOf := fun (g : String × List Nat) =>
    let sorted := g.2.mergeSort fun a b => decide (time a ≤ time b)
    (g.1, linkStats (sorted.map time).toArray (sorted.map (values.getD · Double.nan)).toArray w minPeriods)
  have hres : computeStats f linkColumn valueColumn w minPeriods = .ok ((rowsByLink links.toList).map statsOf) := by
    simp only [computeStats, if_neg (Int.not_le.2 hw), Except.mapError, hlinks, hvalues]
    rfl
  obtain ⟨hinc, hkeys, hrows⟩ := rowsByLink_spec links.toList
  have hfst : ((rowsByLink links.toList).map statsOf).map (·.1) = (rowsByLink links.toList).map (·.1) := by
    rw [List.map_map]
    rfl
  refine ⟨_, hres, hfst ▸ hinc, fun l => ?_, fun l s hls => ?_⟩
  · rw [hfst, hkeys, Array.mem_toList_iff]
  obtain ⟨g, hg, heq⟩ := List.mem_map.1 hls
  obtain ⟨hRinc, hRperm⟩ := rowsOf_link links g.1
  rw [← hrows g hg] at hRinc hRperm
  simp only [statsOf, Prod.mk.injEq] at heq
  obtain ⟨rfl, rfl⟩ := heq
  -- the link's rows sorted by time: a permutation of its rows, in order
  exact ⟨_, (List.mergeSort_perm _ _).trans hRperm, pairwise_mergeSort_increasing time hRinc, rfl⟩

/-- The timestamps of rows sorted by time, outside leap seconds, are in time order. -/
theorem ordered_rows {index : Array Timestamp} (hnl : ∀ t ∈ index, ¬ t.IsLeap) {rows : List Nat}
    (hsorted : rows.Pairwise fun i j => index.getD i default ≤ index.getD j default ∧
      (index.getD j default ≤ index.getD i default → i < j)) :
    Ordered (rows.map (index.getD · default)).toArray := by
  refine ordered_of_pairwise ?_ fun t ht => ?_
  · exact List.pairwise_map.2 (hsorted.imp fun h => h.1)
  · obtain ⟨i, -, rfl⟩ := List.mem_map.1 ht
    exact not_leap_getD hnl i

/-- With a positive window, a link column of texts and a value column of doubles, and no
timestamp in a leap second, `computeStats` gives one entry per link, links in increasing order.
The statistics of a link are those of the definition over its rows in time order, rows at one
instant in frame order: entry `j` summarises the values of the rows up to the `j`-th whose
timestamps lie after `t_j - w`. -/
theorem computeStats_rolls_each_link (f : Frame) (linkColumn valueColumn : String) (w : TimeDelta)
    (minPeriods : Nat) {links : Array String} {values : Array Double} (hw : 0 < w.nanos)
    (hlinks : f.textColumn linkColumn = .ok links) (hvalues : f.floatColumn valueColumn = .ok values)
    (hnl : ∀ t ∈ f.index, ¬ t.IsLeap) :
    ∃ result, computeStats f linkColumn valueColumn w minPeriods = .ok result ∧
      (result.map (·.1)).Pairwise (· < ·) ∧ (∀ l, l ∈ result.map (·.1) ↔ l ∈ links) ∧
      ∀ l s, (l, s) ∈ result → ∃ rows : List Nat,
        rows.Perm ((List.range links.size).filter fun i => links[i]? = some l) ∧
        rows.Pairwise (fun i j => f.index.getD i default ≤ f.index.getD j default ∧
          (f.index.getD j default ≤ f.index.getD i default → i < j)) ∧
        s = rollingStats (rows.map (f.index.getD · default)).toArray
          (rows.map (values.getD · Double.nan)).toArray w minPeriods := by
  obtain ⟨result, hres, hinc, hkeys, hstats⟩ :=
    computeStats_eq_ok f linkColumn valueColumn w minPeriods hw hlinks hvalues
  refine ⟨result, hres, hinc, hkeys, fun l s hls => ?_⟩
  obtain ⟨rows, hperm, hsorted, rfl⟩ := hstats l s hls
  exact ⟨rows, hperm, hsorted, linkStats_eq_rollingStats hw (ordered_rows hnl hsorted) (by simp)⟩

/-- 2023-11-14T22:13:20Z. -/
def firstSample : Timestamp := (Timestamp.ofParts? 1700000000 0 .utc).getD default

/-- Half a minute after `firstSample`. -/
def halfMinuteLater : Timestamp := (Timestamp.ofParts? 1700000030 0 .utc).getD default

/-- A minute. -/
def minuteDelta : TimeDelta := (TimeDelta.ofNanos? 60000000000).getD default

/-- Two rows of link `a` half a minute apart, with utilisations 1 and 3. -/
def halfMinuteFrame : Frame where
  index := #[firstSample, halfMinuteLater]
  columns := [("link", .text #["a", "a"]),
    ("utilization", .float #[⟨0x3FF0000000000000⟩, ⟨0x4008000000000000⟩])]

theorem computeStats_rolls_each_link_halfMinute :
    0 < minuteDelta.nanos ∧ halfMinuteFrame.textColumn "link" = .ok #["a", "a"] ∧
    halfMinuteFrame.floatColumn "utilization" = .ok #[⟨0x3FF0000000000000⟩, ⟨0x4008000000000000⟩] ∧
    (∀ t ∈ halfMinuteFrame.index, ¬ t.IsLeap) ∧
    ∃ result, computeStats halfMinuteFrame "link" "utilization" minuteDelta 1 = .ok result ∧
      (result.map (·.1)).Pairwise (· < ·) ∧ (∀ l, l ∈ result.map (·.1) ↔ l ∈ #["a", "a"]) ∧
      ∀ l s, (l, s) ∈ result → ∃ rows : List Nat,
        rows.Perm ((List.range 2).filter fun i => #["a", "a"][i]? = some l) ∧
        rows.Pairwise (fun i j => halfMinuteFrame.index.getD i default ≤ halfMinuteFrame.index.getD j default ∧
          (halfMinuteFrame.index.getD j default ≤ halfMinuteFrame.index.getD i default → i < j)) ∧
        s = rollingStats (rows.map (halfMinuteFrame.index.getD · default)).toArray
          (rows.map (#[⟨0x3FF0000000000000⟩, ⟨0x4008000000000000⟩].getD · Double.nan)).toArray minuteDelta 1 := by
  have hw : 0 < minuteDelta.nanos := by decide
  have hlinks : halfMinuteFrame.textColumn "link" = .ok #["a", "a"] := rfl
  have hvalues : halfMinuteFrame.floatColumn "utilization" =
      .ok #[⟨0x3FF0000000000000⟩, ⟨0x4008000000000000⟩] := rfl
  have hnl : ∀ t ∈ halfMinuteFrame.index, ¬ t.IsLeap := by decide
  exact ⟨hw, hlinks, hvalues, hnl, computeStats_rolls_each_link halfMinuteFrame "link" "utilization"
    minuteDelta 1 hw hlinks hvalues hnl⟩

/-- Two rows of link `a` at one instant, with utilisations 1 and 3. -/
def tiedRowsFrame : Frame where
  index := #[firstSample, firstSample]
  columns := [("link", .text #["a", "a"]),
    ("utilization", .float #[⟨0x3FF0000000000000⟩, ⟨0x4008000000000000⟩])]

/-- Both rows lie in the window `(t - 1 min, t]` of the first, whose values 1 and 3 have mean 2,
least 1 and greatest 3; yet the first entry summarises the first row alone, with mean 1. -/
theorem tiedRows_entry_leaves_out_later_tie :
    computeStats tiedRowsFrame "link" "utilization" minuteDelta 1 =
      .ok [("a", ⟨#[firstSample, firstSample],
        #[some ⟨0x3FF0000000000000⟩, some ⟨0x4000000000000000⟩],
        #[some ⟨0x3FF0000000000000⟩, some ⟨0x3FF0000000000000⟩],
        #[some ⟨0x3FF0000000000000⟩, some ⟨0x4008000000000000⟩]⟩)] ∧
    summarize [⟨0x3FF0000000000000⟩, ⟨0x4008000000000000⟩] 1 =
      some (⟨0x4000000000000000⟩, ⟨0x3FF0000000000000⟩, ⟨0x4008000000000000⟩) := by
  have hgroups : rowsByLink ["a", "a"] = [("a", [0, 1])] := by
    unfold rowsByLink
    rw [List.mergeSort_of_pairwise (by decide)]
    rfl
  let time := fun i => tiedRowsFrame.index.getD i default
  have hsort : [0, 1].mergeSort (fun a b => decide (time a ≤ time b)) = [0, 1] :=
    List.mergeSort_of_pairwise (by decide)
  let values : Array Double := #[⟨0x3FF0000000000000⟩, ⟨0x4008000000000000⟩]
  have hres : computeStats tiedRowsFrame "link" "utilization" minuteDelta 1 =
      .ok ((rowsByLink ["a", "a"]).map fun g =>
        let sorted := g.2.mergeSort fun a b => decide (time a ≤ time b)
        (g.1, linkStats (sorted.map time).toArray (sorted.map (values.getD · Double.nan)).toArray minuteDelta 1)) := by
    simp only [computeStats, show ¬ minuteDelta.nanos ≤ 0 by decide, if_false]
    rfl
  -- the statistics of the link, field by field
  have hstats : linkStats #[time 0, time 1] #[values.getD 0 Double.nan, values.getD 1 Double.nan] minuteDelta 1 =
      ⟨#[firstSample, firstSample], #[some ⟨0x3FF0000000000000⟩, some ⟨0x4000000000000000⟩],
        #[some ⟨0x3FF0000000000000⟩, some ⟨0x3FF0000000000000⟩],
        #[some ⟨0x3FF0000000000000⟩, some ⟨0x4008000000000000⟩]⟩ := by
    have hfields : ∀ s : LinkStats, ∀ {i m l g}, s.index = i → s.mean = m → s.least = l →
        s.greatest = g → s = ⟨i, m, l, g⟩ := by
      rintro ⟨⟩ _ _ _ _ rfl rfl rfl rfl
      rfl
    exact hfields _ rfl (by decide) (by decide) (by decide)
  refine ⟨?_, by decide⟩
  rw [hres, hgroups]
  simp only [List.map_cons, List.map_nil, hsort]
  rw [hstats]

namespace Timestamp

theorem sameInstant_of_le_of_le {a b : Timestamp} (hab : a ≤ b) (hba : b ≤ a) : a.sameInstant b = true := by
  rw [le_iff] at hab hba
  simp only [sameInstant, instant, beq_iff_eq, Instant.mk.injEq]
  omega

end Timestamp

/-- Where no two rows of a link are at one instant, entry `j` of a link's statistics summarises
exactly the link's samples whose timestamps lie in the documented window `(t_j - w, t_j]`, in time
order, all those not after `t_j` when `t_j - w` is before the representable range. -/
theorem computeStats_follows_documented_window (f : Frame) (linkColumn valueColumn : String)
    (w : TimeDelta) (minPeriods : Nat) {links : Array String} {values : Array Double} (hw : 0 < w.nanos)
    (hlinks : f.textColumn linkColumn = .ok links) (hvalues : f.floatColumn valueColumn = .ok values)
    (hnl : ∀ t ∈ f.index, ¬ t.IsLeap)
    (hties : ∀ i < links.size, ∀ j < links.size, links[i]? = links[j]? →
      (f.index.getD i default).sameInstant (f.index.getD j default) = true → i = j) :
    ∃ result, computeStats f linkColumn valueColumn w minPeriods = .ok result ∧
      ∀ l s, (l, s) ∈ result → ∃ rows : List Nat,
        rows.Perm ((List.range links.size).filter fun i => links[i]? = some l) ∧
        rows.Pairwise (fun i j => f.index.getD i default < f.index.getD j default) ∧
        s = documentedStats (rows.map (f.index.getD · default)).toArray
          (rows.map (values.getD · Double.nan)).toArray w minPeriods := by
  obtain ⟨result, hres, -, -, hstats⟩ :=
    computeStats_eq_ok f linkColumn valueColumn w minPeriods hw hlinks hvalues
  refine ⟨result, hres, fun l s hls => ?_⟩
  obtain ⟨rows, hperm, hsorted, rfl⟩ := hstats l s hls
  have hmem : ∀ i ∈ rows, i < links.size ∧ links[i]? = some l := fun i hi => by
    have := hperm.subset hi
    simp only [List.mem_filter, List.mem_range, decide_eq_true_eq] at this
    exact this
  -- rows of one link at distinct instants come in strictly increasing time order
  have hstrict : rows.Pairwise fun i j => f.index.getD i default < f.index.getD j default := by
    refine hsorted.imp_of_mem fun {i j} hi hj ⟨hle, hback⟩ => lt_iff_le_not_ge.2 ⟨hle, fun hge => ?_⟩
    have hij := hback hge
    have heq := hties i (hmem i hi).1 j (hmem j hj).1 (by rw [(hmem i hi).2, (hmem j hj).2])
      (Timestamp.sameInstant_of_le_of_le hle hge)
    omega
  refine ⟨rows, hperm, hstrict, ?_⟩
  rw [linkStats_eq_rollingStats hw (ordered_rows hnl hsorted) (by simp),
    rollingStats_eq_documentedStats (increasing_of_pairwise (List.pairwise_map.2 hstrict))]

theorem computeStats_follows_documented_window_halfMinute :
    0 < minuteDelta.nanos ∧ halfMinuteFrame.textColumn "link" = .ok #["a", "a"] ∧
    halfMinuteFrame.floatColumn "utilization" = .ok #[⟨0x3FF0000000000000⟩, ⟨0x4008000000000000⟩] ∧
    (∀ t ∈ halfMinuteFrame.index, ¬ t.IsLeap) ∧
    (∀ i < (#["a", "a"] : Array String).size, ∀ j < (#["a", "a"] : Array String).size,
      (#["a", "a"] : Array String)[i]? = (#["a", "a"] : Array String)[j]? →
      (halfMinuteFrame.index.getD i default).sameInstant (halfMinuteFrame.index.getD j default) = true → i = j) ∧
    ∃ result, computeStats halfMinuteFrame "link" "utilization" minuteDelta 1 = .ok result ∧
      ∀ l s, (l, s) ∈ result → ∃ rows : List Nat,
        rows.Perm ((List.range 2).filter fun i => (#["a", "a"] : Array String)[i]? = some l) ∧
        rows.Pairwise (fun i j => halfMinuteFrame.index.getD i default < halfMinuteFrame.index.getD j default) ∧
        s = documentedStats (rows.map (halfMinuteFrame.index.getD · default)).toArray
          (rows.map (#[⟨0x3FF0000000000000⟩, ⟨0x4008000000000000⟩].getD · Double.nan)).toArray minuteDelta 1 := by
  have hw : 0 < minuteDelta.nanos := by decide
  have hlinks : halfMinuteFrame.textColumn "link" = .ok #["a", "a"] := rfl
  have hvalues : halfMinuteFrame.floatColumn "utilization" =
      .ok #[⟨0x3FF0000000000000⟩, ⟨0x4008000000000000⟩] := rfl
  have hnl : ∀ t ∈ halfMinuteFrame.index, ¬ t.IsLeap := by decide
  have hties : ∀ i < (#["a", "a"] : Array String).size, ∀ j < (#["a", "a"] : Array String).size,
      (#["a", "a"] : Array String)[i]? = (#["a", "a"] : Array String)[j]? →
      (halfMinuteFrame.index.getD i default).sameInstant (halfMinuteFrame.index.getD j default) = true → i = j := by
    decide
  exact ⟨hw, hlinks, hvalues, hnl, hties, computeStats_follows_documented_window halfMinuteFrame "link"
    "utilization" minuteDelta 1 hw hlinks hvalues hnl hties⟩

end FrameCache
