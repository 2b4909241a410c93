import Mathlib
import FrameCache.Proofs.FlatChains

/-!
# Rolling statistics by their definition

`linkStats` computes the rolling statistics of a link's samples in time order incrementally: a
pointer to the start of the current window only moves forward, and the summary of the window
grows by each new value until its start moves, when it is summed again from the new start.

By its definition (`rollingStats`), entry `j` summarises afresh the values of the samples up to
the `j`-th whose timestamps lie after `t_j - w` (`windowValues`), all of them when `t_j - w` is
before the representable range. The summary (`summarize`) is empty when fewer than the minimum
number of values, or none, are not NaN, and otherwise gives their mean, summed in order from
negative zero, and their `fmin` and `fmax` folds.

The two agree on samples in time order outside leap seconds (`linkStats_eq_rollingStats`). The
pointer is right because `t - w` grows with `t` there: an entry it moves past lies at or before
the start of a window already scanned, so at or before the start of every later one (`RollInv`).
Samples after the `j`-th at the instant `t_j` are not in its window.
-/

namespace FrameCache

namespace Running

/-- NaN values leave a summary as it was. -/
theorem foldl_push_filter (vs : List Double) (r : Running) :
    vs.foldl push r = (vs.filter fun v => !v.isNaN).foldl push r := by
  induction vs generalizing r with
  | nil => rfl
  | cons v vs ih =>
    by_cases hv : v.isNaN = true
    · have hpush : r.push v = r := by simp [push, hv]
      simp [hv, hpush, ih]
    · simp [hv, ih]

/-- A summary of some values grows by values that are not NaN: count and sum in order, least
and greatest by `fmin` and `fmax`. -/
theorem foldl_push_of_not_nan {vs : List Double} (hvs : ∀ v ∈ vs, v.isNaN = false) (c : Nat)
    (s lo hi : Double) :
    vs.foldl push ⟨c, s, some lo, some hi⟩ =
      ⟨c + vs.length, vs.foldl Double.add s, some (vs.foldl Double.fmin lo),
        some (vs.foldl Double.fmax hi)⟩ := by
  induction vs generalizing c s lo hi with
  | nil => rfl
  | cons v vs ih =>
    have hv : v.isNaN = false := hvs v List.mem_cons_self
    have hstep : push ⟨c, s, some lo, some hi⟩ v = ⟨c + 1, s.add v, some (lo.fmin v), some (hi.fmax v)⟩ := by
      simp [push, hv]
    rw [List.foldl_cons, hstep, ih fun u hu => hvs u (List.mem_cons_of_mem _ hu)]
    simp only [List.length_cons, List.foldl_cons, Running.mk.injEq, and_true]
    omega

end Running

/-- What the summary of a window's values reports: nothing when fewer than `minPeriods` of them,
or none, are not NaN; otherwise their mean, summed in order from negative zero, and their `fmin`
and `fmax` folds. -/
def summarize (vs : List Double) (minPeriods : Nat) : Option (Double × Double × Double) :=
  match vs.filter fun v => !v.isNaN with
  | [] => none
  | a :: rest =>
    if rest.length + 1 < minPeriods then none
    else some (((a :: rest).foldl Double.add Double.negZero).div (Double.ofNat (rest.length + 1)),
      rest.foldl Double.fmin a, rest.foldl Double.fmax a)

namespace Running

/-- The incremental summary reports what `summarize` says of its values. -/
theorem result_ofList (vs : List Double) (minPeriods : Nat) :
    (ofList vs).result minPeriods = summarize vs minPeriods := by
  unfold ofList summarize
  rw [foldl_push_filter]
  have hnan : ∀ v ∈ vs.filter (fun v => !v.isNaN), v.isNaN = false := by
    intro v hv
    simpa using (List.mem_filter.1 hv).2
  generalize vs.filter (fun v => !v.isNaN) = xs at hnan ⊢
  cases xs with
  | nil => rfl
  | cons a rest =>
    have ha : a.isNaN = false := hnan a List.mem_cons_self
    have hfirst : push empty a = ⟨1, Double.negZero.add a, some a, some a⟩ := by
      simp [push, empty, ha]
    rw [List.foldl_cons, hfirst, foldl_push_of_not_nan fun v hv => hnan v (List.mem_cons_of_mem _ hv)]
    simp only [result, List.foldl_cons, Nat.add_comm 1]
    by_cases hmin : rest.length + 1 < minPeriods <;> simp [hmin]

end Running

namespace Timestamp

/-- Whether `u` lies after the start `t - w` of the window that ends at `t`; every timestamp
does when `t - w` is before the representable range. -/
def afterWindowStart (w : TimeDelta) (t u : Timestamp) : Bool :=
  match t.subDelta? w with
  | some lower => decide (lower < u)
  | none => true

theorem lt_of_not_le {a b : Timestamp} (h : ¬ a ≤ b) : b < a :=
  lt_iff_le_not_ge.2 ⟨(le_total b a).resolve_right h, h⟩

end Timestamp

/-- The values of the samples up to the `j`-th, in time order, whose timestamps lie after the
start of the `j`-th sample's window. -/
def windowValues (times : Array Timestamp) (values : Array Double) (w : TimeDelta) (j : Nat) :
    List Double :=
  ((List.range (j + 1)).filter fun p =>
    (times.getD j default).afterWindowStart w (times.getD p default)).map (values.getD · Double.nan)

/-- The rolling statistics of samples in time order by their definition: entry `j` summarises
afresh the values of its window. -/
def rollingStats (times : Array Timestamp) (values : Array Double) (w : TimeDelta)
    (minPeriods : Nat) : LinkStats :=
  let entries := (List.range times.size).map fun j => summarize (windowValues times values w j) minPeriods
  { index := times,
    mean := (entries.map (·.map (·.1))).toArray,
    least := (entries.map (·.map (·.2.1))).toArray,
    greatest := (entries.map (·.map (·.2.2))).toArray }

/-- The values of the samples whose timestamps lie in the window `(t_j - w, t_j]` of the `j`-th,
in time order; every sample not after `t_j` when `t_j - w` is before the representable range. -/
def documentedWindow (times : Array Timestamp) (values : Array Double) (w : TimeDelta) (j : Nat) :
    List Double :=
  ((List.range times.size).filter fun p =>
    (times.getD j default).afterWindowStart w (times.getD p default) &&
      decide (times.getD p default ≤ times.getD j default)).map (values.getD · Double.nan)

/-- The rolling statistics as their documentation gives them: entry `j` summarises the samples
of the window `(t_j - w, t_j]`. -/
def documentedStats (times : Array Timestamp) (values : Array Double) (w : TimeDelta)
    (minPeriods : Nat) : LinkStats :=
  let entries := (List.range times.size).map fun j => summarize (documentedWindow times values w j) minPeriods
  { index := times,
    mean := (entries.map (·.map (·.1))).toArray,
    least := (entries.map (·.map (·.2.1))).toArray,
    greatest := (entries.map (·.map (·.2.2))).toArray }

/-- Positions from `s` to `j` are those up to `j` that pass a test failing before `s` and
holding from `s` on. -/
theorem filter_range_eq_range' {P : Nat → Bool} {s j : Nat} (hs : s ≤ j + 1)
    (hlow : ∀ q < s, P q = false) (hin : ∀ q, s ≤ q → q ≤ j → P q = true) :
    (List.range (j + 1)).filter P = List.range' s (j + 1 - s) := by
  have hsplit : List.range (j + 1) = List.range' 0 s ++ List.range' s (j + 1 - s) := by
    have happend := @List.range'_append_1 0 s (j + 1 - s)
    rw [Nat.zero_add, Nat.add_sub_cancel' hs] at happend
    rw [List.range_eq_range', happend]
  rw [hsplit, List.filter_append, List.filter_eq_nil_iff.2, List.filter_eq_self.2, List.nil_append]
  · intro q hq
    rw [List.mem_range'_1] at hq
    exact hin q hq.1 (by omega)
  · intro q hq
    rw [List.mem_range'_1] at hq
    simp [hlow q (by omega)]

/-- The values from `s` to `e` of an array long enough. -/
theorem toList_extract_eq_map {a : Array Double} {s e : Nat} (hse : s ≤ e) (he : e ≤ a.size) :
    (a.extract s e).toList = (List.range' s (e - s)).map (a.getD · Double.nan) := by
  apply List.ext_getElem
  · simp only [Array.length_toList, Array.size_extract, List.length_map, List.length_range']
    omega
  · intro i h₁ h₂
    simp only [Array.length_toList, Array.size_extract] at h₁
    simp [Array.getD_eq_getD_getElem?, List.getElem_range', show s + i < a.size by omega]

theorem getD_eq_getElem {α : Type} {a : Array α} {i : Nat} (d : α) (h : i < a.size) : a.getD i d = a[i] := by
  simp [h]

section Window

variable {times : Array Timestamp} {values : Array Double} {w : TimeDelta} {minPeriods : Nat}

/-- What holds after the first `k` samples: the window start is at most `k` and has moved only
past samples at or before the start of a scanned sample's window; the summary is of the values
from the start on; and the entries so far are those of the definition, latest first. -/
structure RollInv (times : Array Timestamp) (values : Array Double) (w : TimeDelta) (minPeriods k : Nat)
    (st : Nat × Running × List (Option (Double × Double × Double))) : Prop where
  left_le : st.1 ≤ k
  passed : ∀ q < st.1, ∃ p < k, ∃ lower, (times.getD p default).subDelta? w = some lower ∧
    times.getD q default ≤ lower
  run : st.2.1 = Running.ofList ((List.range' st.1 (k - st.1)).map (values.getD · Double.nan))
  out : st.2.2 = ((List.range k).map fun j => summarize (windowValues times values w j) minPeriods).reverse

theorem rollInv_zero : RollInv times values w minPeriods 0 (0, Running.empty, []) where
  left_le := Nat.le_refl 0
  passed _ hq := absurd hq (Nat.not_lt_zero _)
  run := rfl
  out := rfl

/-- The samples in time order, outside leap seconds. -/
structure Ordered (times : Array Timestamp) : Prop where
  mono : ∀ p q, p ≤ q → q < times.size → times.getD p default ≤ times.getD q default
  not_leap : ∀ p < times.size, ¬ (times.getD p default).IsLeap

/-- Timestamps listed in time order, none in a leap second. -/
theorem ordered_of_pairwise {ts : List Timestamp} (hs : ts.Pairwise (· ≤ ·)) (hnl : ∀ t ∈ ts, ¬ t.IsLeap) :
    Ordered ts.toArray where
  mono p q hpq hq := by
    simp only [List.size_toArray] at hq
    rw [getD_eq_getElem default (by simp; omega), getD_eq_getElem default (by simpa using hq)]
    simp only [List.getElem_toArray]
    rcases Nat.eq_or_lt_of_le hpq with rfl | hlt
    · exact le_refl _
    · exact List.pairwise_iff_getElem.1 hs p q (by omega) hq hlt
  not_leap p hp := by
    rw [getD_eq_getElem default hp, List.getElem_toArray]
    exact hnl _ (List.getElem_mem _)

/-- Timestamps listed in strictly increasing order are strictly increasing by position. -/
theorem increasing_of_pairwise {ts : List Timestamp} (hs : ts.Pairwise (· < ·)) :
    ∀ p q, p < q → q < ts.toArray.size → ts.toArray.getD p default < ts.toArray.getD q default := by
  intro p q hpq hq
  simp only [List.size_toArray] at hq
  rw [getD_eq_getElem default (by simp; omega), getD_eq_getElem default (by simpa using hq)]
  simp only [List.getElem_toArray]
  exact List.pairwise_iff_getElem.1 hs p q (by omega) hq hpq

/-- The start of the window of the `k`-th sample, found from a start that has passed only
samples at or before an earlier window's start: everything before it is at or before
`t_k - w`, and everything from it up to `k` lies after. -/
theorem windowStart_spec (hw : 0 < w.nanos) (ho : Ordered times) {k left : Nat} (hk : k < times.size)
    (hleft : left ≤ k)
    (hpassed : ∀ q < left, ∃ p < k, ∃ lower, (times.getD p default).subDelta? w = some lower ∧
      times.getD q default ≤ lower) :
    left ≤ windowStart times w left (times.getD k default) ∧
    windowStart times w left (times.getD k default) ≤ k ∧
    (∀ q < windowStart times w left (times.getD k default), ∃ lower,
      (times.getD k default).subDelta? w = some lower ∧ times.getD q default ≤ lower) ∧
    ∀ q, windowStart times w left (times.getD k default) ≤ q → q ≤ k →
      (times.getD k default).afterWindowStart w (times.getD q default) = true := by
  have hnk := ho.not_leap k hk
  -- a passed sample lies at or before an earlier window's start, so `t_k - w` is a timestamp
  -- and that start is at or before it
  have hearlier : ∀ q < left, ∃ lower, (times.getD k default).subDelta? w = some lower ∧
      times.getD q default ≤ lower := by
    intro q hq
    obtain ⟨p, hp, lowerp, hlowerp, hqle⟩ := hpassed q hq
    have htp := ho.mono p k (Nat.le_of_lt hp) hk
    have hnp := ho.not_leap p (by omega)
    obtain ⟨hlin, -, -⟩ := Timestamp.subDelta?_of_not_leap hw hnp hlowerp
    have hlin' := (Timestamp.le_iff_linear hnp hnk).1 htp
    obtain ⟨lower, hlower⟩ := Timestamp.subDelta?_isSome (y := lowerp) hw hnk (by omega)
    exact ⟨lower, hlower, le_trans hqle (Timestamp.subDelta?_mono hw hnp hnk htp hlowerp hlower)⟩
  rcases Option.eq_none_or_eq_some ((times.getD k default).subDelta? w) with hnone | ⟨lower, hlower⟩
  · simp only [windowStart, Timestamp.afterWindowStart, hnone]
    refine ⟨Nat.le_refl _, hleft, fun q hq => ?_, fun _ _ _ => trivial⟩
    obtain ⟨lower, hsome, -⟩ := hearlier q hq
    rw [hnone] at hsome
    cases hsome
  · simp only [windowStart, Timestamp.afterWindowStart, hlower]
    have hks : k < times.size := hk
    -- the sample itself lies after its window's start
    have hbelow : lower < times.getD k default := (Timestamp.subDelta?_of_not_leap hw hnk hlower).2.2
    have hstop : skipWhile times (fun u => decide (u ≤ lower)) times.size left ≤ k := by
      refine skipWhile_le hks ?_ _ _ hleft
      rw [← getD_eq_getElem default hks, decide_eq_false_iff_not]
      exact fun h => (lt_iff_le_not_ge.1 hbelow).2 h
    refine ⟨le_skipWhile _ _ _ _, hstop, fun q hq => ?_, fun q hq hqk => ?_⟩
    · rcases Nat.lt_or_ge q left with hql | hql
      · obtain ⟨lower', hlower', hle⟩ := hearlier q hql
        rw [hlower] at hlower'
        cases hlower'
        exact ⟨lower, rfl, hle⟩
      · obtain ⟨hqs, hpq⟩ := of_lt_skipWhile hql hq
        refine ⟨lower, rfl, ?_⟩
        rw [getD_eq_getElem default hqs]
        simpa using hpq
    · -- the pointer stops at a sample after the start, and later samples are no earlier
      have hpos := @skipWhile_stops times (fun u => decide (u ≤ lower)) times.size left (by omega)
        (by omega)
      simp only [decide_eq_false_iff_not] at hpos
      exact decide_eq_true (lt_of_lt_of_le (Timestamp.lt_of_not_le hpos) (ho.mono _ q hq (by omega)))

/-- One sample keeps the invariant: the start moves to the start of the sample's window, the
summary becomes that of the window, and the entry is the definition's. -/
theorem RollInv.step (hw : 0 < w.nanos) (ho : Ordered times) (hsize : times.size ≤ values.size)
    {k : Nat} (hk : k < times.size) {st : Nat × Running × List (Option (Double × Double × Double))}
    (h : RollInv times values w minPeriods k st) :
    RollInv times values w minPeriods (k + 1) (rollStep times values w minPeriods st k) := by
  obtain ⟨left, run, out⟩ := st
  have hleftk : left ≤ k := h.left_le
  have hrun₀ : run = Running.ofList ((List.range' left (k - left)).map (values.getD · Double.nan)) := h.run
  have hout₀ : out = ((List.range k).map fun j => summarize (windowValues times values w j) minPeriods).reverse :=
    h.out
  obtain ⟨hls, hsk, hbefore, hin⟩ := windowStart_spec hw ho hk hleftk h.passed
  -- the window of the sample is the run of positions from its start
  have hwin : (List.range' (windowStart times w left (times.getD k default))
      (k + 1 - windowStart times w left (times.getD k default))).map (values.getD · Double.nan) =
      windowValues times values w k := by
    unfold windowValues
    rw [filter_range_eq_range' (by omega) (fun q hq => ?_) hin]
    obtain ⟨lower, hlower, hle⟩ := hbefore q hq
    simp only [Timestamp.afterWindowStart, hlower, decide_eq_false_iff_not]
    exact fun hlt => (lt_iff_le_not_ge.1 hlt).2 hle
  -- a start that stays put adds the sample's value at the end; one that moves sums afresh
  have hrun : (if windowStart times w left (times.getD k default) = left then
        run.push (values.getD k Double.nan)
      else Running.ofList (values.extract (windowStart times w left (times.getD k default)) (k + 1)).toList) =
      Running.ofList (windowValues times values w k) := by
    rw [← hwin]
    by_cases heq : windowStart times w left (times.getD k default) = left
    · have hleft : k + 1 - left = k - left + 1 := by omega
      have hlast : left + 1 * (k - left) = k := by omega
      rw [if_pos heq, heq, hrun₀, hleft, List.range'_concat, hlast, List.map_append, Running.ofList,
        Running.ofList, List.foldl_append]
      rfl
    · rw [if_neg heq, toList_extract_eq_map (by omega) (by omega)]
  have hstep : rollStep times values w minPeriods (left, run, out) k =
      (windowStart times w left (times.getD k default), Running.ofList (windowValues times values w k),
        summarize (windowValues times values w k) minPeriods :: out) := by
    rw [← Running.result_ofList, ← hrun]
    rfl
  rw [hstep]
  refine ⟨by simp only; omega, fun q hq => ?_, by simp only [hwin], ?_⟩
  · obtain ⟨lower, hlower, hle⟩ := hbefore q hq
    exact ⟨k, Nat.lt_succ_self k, lower, hlower, hle⟩
  · simp only [hout₀, List.range_succ, List.map_append, List.map_cons, List.map_nil, List.reverse_append,
      List.reverse_cons, List.reverse_nil, List.nil_append, List.singleton_append]

/-- The invariant holds after every prefix of the samples. -/
theorem rollInv_foldl (hw : 0 < w.nanos) (ho : Ordered times) (hsize : times.size ≤ values.size) :
    ∀ k ≤ times.size, RollInv times values w minPeriods k
      ((List.range k).foldl (rollStep times values w minPeriods) (0, Running.empty, []))
  | 0, _ => rollInv_zero
  | k + 1, hk => by
    rw [List.range_succ, List.foldl_append, List.foldl_cons, List.foldl_nil]
    exact (rollInv_foldl hw ho hsize k (by omega)).step hw ho hsize (by omega)

/-- Outside leap seconds, the incremental rolling statistics of samples in time order are those
of the definition. -/
theorem linkStats_eq_rollingStats (hw : 0 < w.nanos) (ho : Ordered times) (hsize : times.size ≤ values.size) :
    linkStats times values w minPeriods = rollingStats times values w minPeriods := by
  have hentries : ((List.range times.size).foldl (rollStep times values w minPeriods)
      (0, Running.empty, [])).2.2.reverse =
      (List.range times.size).map fun j => summarize (windowValues times values w j) minPeriods := by
    rw [(rollInv_foldl hw ho hsize times.size (Nat.le_refl _)).out, List.reverse_reverse]
  simp only [linkStats, rollingStats]
  rw [hentries]

/-- Of samples in strictly increasing time order, those up to the `j`-th are those not after
`t_j`, so the window of the `j`-th by the definition is the documented one. -/
theorem windowValues_eq_documentedWindow
    (hinc : ∀ p q, p < q → q < times.size → times.getD p default < times.getD q default)
    {j : Nat} (hj : j < times.size) : windowValues times values w j = documentedWindow times values w j := by
  have hsplit : List.range times.size = List.range (j + 1) ++ List.range' (j + 1) (times.size - (j + 1)) := by
    have happend := @List.range'_append_1 0 (j + 1) (times.size - (j + 1))
    rw [Nat.zero_add, Nat.add_sub_cancel' (by omega)] at happend
    rw [List.range_eq_range', List.range_eq_range', happend]
  -- up to `j` every timestamp is at most `t_j`, and after `j` every one is later
  have hupto : ∀ p ∈ List.range (j + 1), times.getD p default ≤ times.getD j default := by
    intro p hp
    rcases Nat.eq_or_lt_of_le (Nat.le_of_lt_succ (List.mem_range.1 hp)) with rfl | hlt
    · exact le_refl _
    · exact le_of_lt (hinc p j hlt hj)
  have hafter : ((List.range' (j + 1) (times.size - (j + 1))).filter fun p =>
      (times.getD j default).afterWindowStart w (times.getD p default) &&
        decide (times.getD p default ≤ times.getD j default)) = [] := by
    refine List.filter_eq_nil_iff.2 fun p hp => ?_
    rw [List.mem_range'_1] at hp
    have hnot : ¬ times.getD p default ≤ times.getD j default :=
      (lt_iff_le_not_ge.1 (hinc j p (by omega) (by omega))).2
    simp only [hnot, decide_false, Bool.and_false, Bool.false_eq_true, not_false_eq_true]
  unfold windowValues documentedWindow
  rw [hsplit, List.filter_append, hafter, List.append_nil]
  congr 1
  exact List.filter_congr fun p hp => by simp only [hupto p hp, decide_true, Bool.and_true]

/-- Of samples in strictly increasing time order, the rolling statistics by the definition are the
documented ones. -/
theorem rollingStats_eq_documentedStats
    (hinc : ∀ p q, p < q → q < times.size → times.getD p default < times.getD q default) :
    rollingStats times values w minPeriods = documentedStats times values w minPeriods := by
  have hentries : (List.range times.size).map (fun j => summarize (windowValues times values w j) minPeriods) =
      (List.range times.size).map fun j => summarize (documentedWindow times values w j) minPeriods :=
    List.map_congr_left fun j hj => by rw [windowValues_eq_documentedWindow hinc (List.mem_range.1 hj)]
  simp only [rollingStats, documentedStats, hentries]

end Window

end FrameCache
