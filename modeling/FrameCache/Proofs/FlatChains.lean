import Mathlib
import FrameCache.Proofs.FlatIntervals

/-!
# Flat intervals are backed by chains of suspects

Every interval `analyzeLink` reports comes from a chain of suspect entries of its link, in time
order. The first entry's window starts at the interval's start, and the interval ends at the
last entry. Each entry's window starts no later than the entry before it, and the joint spread
of the chain stays under the limit (`FlatnessConfig.Backs`). The intervals are reported in
order of start and of end, and each lasts at least the window (`FlatnessConfig.BackedIntervals`).

The start of an entry's window (`LinkStats.WindowStart`) is the earliest entry at or after
`t - w`. The scan finds it with a pointer that only moves forward, past the entries before the
window of the entry being scanned. That is right while `t - w` grows with `t`, which holds
outside leap seconds (`Timestamp.subDelta?_mono`). Across a leap second the two can disagree:
`23:59:60.9 - 0.95 s` is `23:59:59.95` but `00:00:00 - 0.95 s` is `23:59:59.05`. The pointer
then stands past the real start of a later entry's window, and an interval can be reported
from an entry that starts no suspect's window (`leapChainStats_interval_unbacked`).
-/

namespace FrameCache

namespace Timestamp

variable {t t' y lower lower' : Timestamp} {d : TimeDelta}

theorem ofParts?_isSome {s : Int} {n : Nat} {o : Offset} (hn : n < 2000000000) (hmin : minSecond ≤ s)
    (hmax : s ≤ maxSecond) : ∃ u, ofParts? s n o = some u :=
  ⟨_, dif_pos ⟨hn, hmin, hmax⟩⟩

/-- Every timestamp counts at least the first supported second on the time line. -/
theorem minSecond_le_linear (y : Timestamp) : minSecond * 1000000000 ≤ y.linear := by
  have := y.min_le
  unfold linear
  split <;> omega

/-- Outside a leap second, a timestamp can be moved back by a positive span as long as some
timestamp lies at least that span before it. -/
theorem subDelta?_isSome (hd : 0 < d.nanos) (ht : ¬ t.IsLeap) (hy : y.linear + d.nanos ≤ t.linear) :
    ∃ lower, t.subDelta? d = some lower := by
  -- the target lies on the time line no earlier than the first supported second
  have hlow := minSecond_le_linear y
  have hmax := t.le_max
  have hnano : t.nano < 1000000000 := Nat.lt_of_not_le ht
  have hneg : d.neg.nanos = -d.nanos := rfl
  rw [subDelta?, addDelta?_of_not_leap ht, hneg]
  rw [linear_of_not_leap ht] at hy ⊢
  exact ofParts?_isSome (by omega) (by omega) (by omega)

/-- Outside leap seconds, moving back by a positive span keeps the order of instants. -/
theorem subDelta?_mono (hd : 0 < d.nanos) (ht : ¬ t.IsLeap) (ht' : ¬ t'.IsLeap) (htt' : t ≤ t')
    (hl : t.subDelta? d = some lower) (hl' : t'.subDelta? d = some lower') : lower ≤ lower' := by
  obtain ⟨hlin, hnl, -⟩ := subDelta?_of_not_leap hd ht hl
  obtain ⟨hlin', hnl', -⟩ := subDelta?_of_not_leap hd ht' hl'
  have := (le_iff_linear ht ht').1 htt'
  exact (le_iff_linear hnl hnl').2 (by omega)

end Timestamp

/-- With fuel enough to reach the end, the pointer stops at the end or at an entry that fails
the test. -/
theorem skipWhile_stops {times : Array Timestamp} {p : Timestamp → Bool} :
    ∀ fuel left, times.size ≤ left + fuel → skipWhile times p fuel left < times.size →
      p (times.getD (skipWhile times p fuel left) default) = false
  | 0, left, hfuel, h => by
    simp only [skipWhile] at h
    omega
  | fuel + 1, left, hfuel, h => by
    unfold skipWhile at h ⊢
    split at h
    · rename_i u hu
      split at h
      · rename_i hpu
        rw [if_pos hpu]
        exact skipWhile_stops fuel (left + 1) (by omega) h
      · rename_i hpu
        rw [if_neg hpu, Array.getD_eq_getD_getElem?, hu, Option.getD_some]
        simpa using hpu
    · rename_i hu
      rw [Array.getElem?_eq_none_iff] at hu
      omega

/-- Consecutive elements related by a reflexive transitive relation relate the first to the
last. -/
theorem head_le_getLast {l : List Nat} (f : Nat → Timestamp) (h : l.IsChain fun i j => f i ≤ f j)
    {a b : Nat} (ha : l.head? = some a) (hb : l.getLast? = some b) : f a ≤ f b := by
  induction l generalizing a with
  | nil => cases ha
  | cons x xs ih =>
    cases xs with
    | nil =>
      simp only [List.head?_cons, Option.some.injEq, List.getLast?_singleton] at ha hb
      rw [← ha, ← hb]
    | cons y ys =>
      rw [List.isChain_cons_cons] at h
      simp only [List.head?_cons, Option.some.injEq] at ha
      rw [List.getLast?_cons_cons] at hb
      rw [← ha]
      exact le_trans h.1 (ih h.2 rfl hb)

namespace LinkStats

variable {s : LinkStats} {w : TimeDelta} {t t' x x' y : Timestamp}

/-- `y` is not before the start `t - w` of the window that ends at `t`; when `t - w` lies before
the representable range, every timestamp is. -/
def NotBeforeWindow (w : TimeDelta) (t y : Timestamp) : Prop :=
  ∀ lower, t.subDelta? w = some lower → lower ≤ y

/-- `x` starts the window that ends at `t` among the link's entries: it is the earliest entry
not before `t - w`. -/
def WindowStart (s : LinkStats) (w : TimeDelta) (t x : Timestamp) : Prop :=
  x ∈ s.index ∧ NotBeforeWindow w t x ∧ ∀ y ∈ s.index, NotBeforeWindow w t y → x ≤ y

/-- Outside leap seconds, what is not before a later window is not before an earlier one. -/
theorem NotBeforeWindow.of_le (hw : 0 < w.nanos) (ht : ¬ t.IsLeap) (ht' : ¬ t'.IsLeap) (htt' : t ≤ t')
    (h : NotBeforeWindow w t' y) : NotBeforeWindow w t y := by
  intro lower hl
  cases hl' : t'.subDelta? w with
  | some lower' => exact le_trans (Timestamp.subDelta?_mono hw ht ht' htt' hl hl') (h lower' hl')
  | none =>
    -- the later window starts inside the range too, as the earlier one does
    obtain ⟨hlin, -, -⟩ := Timestamp.subDelta?_of_not_leap hw ht hl
    have := (Timestamp.le_iff_linear ht ht').1 htt'
    obtain ⟨_, h'⟩ := Timestamp.subDelta?_isSome (y := lower) hw ht' (by omega)
    rw [hl'] at h'
    cases h'

/-- Outside leap seconds, the start of a window moves forward with its end. -/
theorem WindowStart.le (hw : 0 < w.nanos) (ht : ¬ t.IsLeap) (ht' : ¬ t'.IsLeap) (htt' : t ≤ t')
    (hx : s.WindowStart w t x) (hx' : s.WindowStart w t' x') : x ≤ x' :=
  hx.2.2 x' hx'.1 (hx'.2.1.of_le hw ht ht' htt')

theorem getD_mem_index {i : Nat} (hi : i < s.index.size) : s.index.getD i default ∈ s.index := by
  rw [Array.getD_eq_getD_getElem?, Array.getElem?_eq_getElem hi, Option.getD_some]
  exact Array.getElem_mem hi

theorem getD_times_mem {p : Nat} (hp : p < s.index.size) : s.times.getD p default ∈ s.index := by
  rw [getD_times s hp]
  exact getD_mem_index (s.getD_order_lt hp)

/-- Outside leap seconds, the scan's pointer finds the start of the window of each entry it
scans: the entry under the pointer, or the scanned entry itself when the pointer has passed it. -/
theorem windowStart_pointer {c : FlatnessConfig} (hw : 0 < w.nanos)
    (hnl : ∀ p < s.index.size, ¬ (s.times.getD p default).IsLeap) {k : Nat} {st : Nat × List Candidate}
    (hk : k < s.index.size) (h : ScanInv s w k st) :
    s.WindowStart w (s.times.getD k default) (s.times.getD (min (s.pointerAfter w st.1 k) k) default) := by
  have hsize := s.size_times
  have hpassed := (h.step (c := c) hw hnl hk 0).passed
  rw [(scanStep_cases c w st k 0).1] at hpassed
  refine ⟨getD_times_mem (by omega), fun lower hl => ?_, fun y hy hny => ?_⟩
  · rcases le_or_gt (s.pointerAfter w st.1 k) k with hle | hlt
    · -- the pointer stopped at an entry that is not before the window
      have hptr : s.pointerAfter w st.1 k =
          skipWhile s.times (fun u => decide (u < lower)) s.times.size st.1 := by
        unfold pointerAfter
        rw [hl]
      rw [Nat.min_eq_left hle, hptr]
      have hstop := @skipWhile_stops s.times (fun u => decide (u < lower)) s.times.size st.1
        (by omega) (by rw [← hptr]; omega)
      exact Timestamp.not_lt_iff.1 (decide_eq_false_iff_not.1 hstop)
    · -- the pointer passed the entry, which ends its own window
      rw [Nat.min_eq_right (Nat.le_of_lt hlt)]
      exact le_of_lt (Timestamp.subDelta?_of_not_leap hw (hnl k hk) hl).2.2
  · obtain ⟨r, hr, rfl⟩ : ∃ r < s.index.size, s.times.getD r default = y := by
      obtain ⟨i, hi, rfl⟩ := Array.getElem_of_mem hy
      obtain ⟨r, hr, hri⟩ := s.exists_getD_order hi
      refine ⟨r, hr, ?_⟩
      rw [getD_times s hr, hri, Array.getD_eq_getD_getElem?, Array.getElem?_eq_getElem hi,
        Option.getD_some]
    rcases le_or_gt (min (s.pointerAfter w st.1 k) k) r with hle | hlt
    · exact times_mono s hle hr
    · -- an entry the pointer passed lies more than the window before a scanned entry, so
      -- before the window of the entry being scanned
      exfalso
      obtain ⟨p, hp, hpass⟩ := hpassed r (lt_of_lt_of_le hlt (Nat.min_le_left _ _))
      have hpk := (Timestamp.le_iff_linear (hnl p (by omega)) (hnl k hk)).1
        (times_mono s (Nat.le_of_lt_succ hp) hk)
      cases hl : (s.times.getD k default).subDelta? w with
      | some lower =>
        obtain ⟨hlin, hnll, -⟩ := Timestamp.subDelta?_of_not_leap hw (hnl k hk) hl
        have hbefore := (Timestamp.lt_iff_linear (hnl r hr) hnll).2 (by omega)
        exact (lt_iff_le_not_ge.1 hbefore).2 (hny lower hl)
      | none =>
        obtain ⟨_, h'⟩ := Timestamp.subDelta?_isSome (y := s.times.getD r default) hw (hnl k hk)
          (by omega)
        rw [hl] at h'
        cases h'

/-- The values of a column at the rows `rows`, where present, reduced in order by `op`. -/
def reduceRows (column : Array (Option Double)) (op : Double → Double → Double) (rows : List Nat) :
    Option Double :=
  match rows.filterMap (column.getD · none) with
  | [] => none
  | v :: vs => some (vs.foldl op v)

theorem reduceRows_singleton {column : Array (Option Double)} {op : Double → Double → Double}
    {i : Nat} {v : Double} (h : column.getD i none = some v) : reduceRows column op [i] = some v := by
  simp only [reduceRows, List.filterMap_cons, h, List.filterMap_nil, List.foldl_nil]

theorem reduceRows_append {column : Array (Option Double)} {op : Double → Double → Double}
    {rows : List Nat} {i : Nat} {r v : Double} (hr : reduceRows column op rows = some r)
    (h : column.getD i none = some v) : reduceRows column op (rows ++ [i]) = some (op r v) := by
  unfold reduceRows at hr ⊢
  rw [List.filterMap_append]
  split at hr
  · cases hr
  · rename_i u us hus
    simp only [Option.some.injEq] at hr
    simp only [hus, List.filterMap_cons, h, List.filterMap_nil, List.cons_append, List.foldl_append,
      List.foldl_cons, List.foldl_nil, hr]

end LinkStats

namespace FlatnessConfig

/-- The rows `rows` of a link's statistics back the interval `iv`: they are suspect entries in
time order; the first one's window starts at the interval's start and the last one is the
interval's end; each one's window starts no later than the entry before it; and the greatest
of their greatest values minus the least of their least values stays under the limit. -/
structure Backs (c : FlatnessConfig) (s : LinkStats) (w : TimeDelta) (iv : Interval)
    (rows : List Nat) : Prop where
  suspect : ∀ i ∈ rows, i < s.index.size ∧ c.Suspect s i
  sorted : rows.IsChain fun i j => s.index.getD i default ≤ s.index.getD j default
  start : ∃ i, rows.head? = some i ∧ s.WindowStart w (s.index.getD i default) iv.start
  stop : ∃ i, rows.getLast? = some i ∧ iv.stop = s.index.getD i default
  linked : rows.IsChain fun i j =>
    ∃ x, s.WindowStart w (s.index.getD j default) x ∧ x ≤ s.index.getD i default
  spread : ∃ hi lo, LinkStats.reduceRows s.greatest Double.fmax rows = some hi ∧
    LinkStats.reduceRows s.least Double.fmin rows = some lo ∧ (hi.sub lo).lt c.flatnessLimit = true

/-- The intervals reported for a link come in order of start and of end, each lasts at least
the window, and each is backed by a chain of suspect entries. -/
structure BackedIntervals (c : FlatnessConfig) (s : LinkStats) (w : TimeDelta) (ivs : List Interval) :
    Prop where
  ordered : ivs.Pairwise fun a b => a.start ≤ b.start ∧ a.stop ≤ b.stop
  long : ∀ iv ∈ ivs, w ≤ iv.duration
  backed : ∀ iv ∈ ivs, ∃ rows, c.Backs s w iv rows

/-- A backing chain's first entry is an entry at or before the interval's end whose window
starts at the interval's start. -/
theorem Backs.head_le_stop {c : FlatnessConfig} {s : LinkStats} {w : TimeDelta} {iv : Interval}
    {rows : List Nat} (h : c.Backs s w iv rows) :
    ∃ i < s.index.size, s.WindowStart w (s.index.getD i default) iv.start ∧
      s.index.getD i default ≤ iv.stop := by
  obtain ⟨i, hi, hstart⟩ := h.start
  obtain ⟨j, hj, hstop⟩ := h.stop
  refine ⟨i, (h.suspect i (List.mem_of_mem_head? hi)).1, hstart, ?_⟩
  exact hstop ▸ head_le_getLast (s.index.getD · default) h.sorted hi hj

/-- A suspect entry alone backs the interval from the start of its window to it. -/
theorem Backs.single {c : FlatnessConfig} {s : LinkStats} {w : TimeDelta} {i : Nat} {start : Timestamp}
    {high low : Double} (hi : i < s.index.size) (hsus : c.Suspect s i)
    (hws : s.WindowStart w (s.index.getD i default) start)
    (hh : s.greatest.getD i none = some high) (hl : s.least.getD i none = some low)
    (hlt : (high.sub low).lt c.flatnessLimit = true) :
    c.Backs s w ⟨start, s.index.getD i default⟩ [i] where
  suspect r hr := by
    rw [List.mem_singleton.1 hr]
    exact ⟨hi, hsus⟩
  sorted := List.isChain_singleton i
  start := ⟨i, rfl, hws⟩
  stop := ⟨i, rfl, rfl⟩
  linked := List.isChain_singleton i
  spread := ⟨high, low, LinkStats.reduceRows_singleton hh, LinkStats.reduceRows_singleton hl, hlt⟩

/-- A chain that backs an interval, followed by a suspect entry at or after the interval's end
whose window starts no later than that end, backs the interval grown to the entry, when the
joint spread stays under the limit. -/
theorem Backs.snoc {c : FlatnessConfig} {s : LinkStats} {w : TimeDelta} {iv : Interval}
    {rows : List Nat} {i : Nat} {x : Timestamp} {hi lo high low : Double} (hb : c.Backs s w iv rows)
    (hki : i < s.index.size) (hsus : c.Suspect s i)
    (hstop : iv.stop ≤ s.index.getD i default) (hws : s.WindowStart w (s.index.getD i default) x)
    (hx : x ≤ iv.stop) (hhi : LinkStats.reduceRows s.greatest Double.fmax rows = some hi)
    (hh : s.greatest.getD i none = some high)
    (hlo : LinkStats.reduceRows s.least Double.fmin rows = some lo) (hl : s.least.getD i none = some low)
    (hlt : ((hi.fmax high).sub (lo.fmin low)).lt c.flatnessLimit = true) :
    c.Backs s w ⟨iv.start, s.index.getD i default⟩ (rows ++ [i]) := by
  obtain ⟨j, hj, hjstop⟩ := hb.stop
  refine ⟨fun r hr => ?_, ?_, ?_, ⟨i, by simp, rfl⟩, ?_,
    ⟨_, _, LinkStats.reduceRows_append hhi hh, LinkStats.reduceRows_append hlo hl, hlt⟩⟩
  · rcases List.mem_append.1 hr with hr | hr
    · exact hb.suspect r hr
    · rw [List.mem_singleton.1 hr]
      exact ⟨hki, hsus⟩
  · -- the last entry of the chain is its end, at or before the new entry
    refine hb.sorted.append (List.isChain_singleton i) fun a ha b hb' => ?_
    rw [hj, Option.mem_some_iff] at ha
    rw [List.head?_singleton, Option.mem_some_iff] at hb'
    rw [← ha, ← hb', ← hjstop]
    exact hstop
  · obtain ⟨r, hr, hrs⟩ := hb.start
    exact ⟨r, by rw [List.head?_append, hr]; rfl, hrs⟩
  · -- the new entry's window starts no later than the chain's end
    refine hb.linked.append (List.isChain_singleton i) fun a ha b hb' => ?_
    rw [hj, Option.mem_some_iff] at ha
    rw [List.head?_singleton, Option.mem_some_iff] at hb'
    rw [← ha, ← hb', ← hjstop]
    exact ⟨x, hws, hx⟩

end FlatnessConfig

namespace LinkStats

variable {s : LinkStats}

/-- What the candidates found so far hold: later ones start and end no earlier than earlier
ones, and each is backed by a chain of suspects whose greatest and least values it keeps. -/
structure ChainInv (c : FlatnessConfig) (s : LinkStats) (w : TimeDelta) (found : List Candidate) :
    Prop where
  ordered : found.Pairwise fun newer older => older.start ≤ newer.start ∧ older.stop ≤ newer.stop
  backed : ∀ cand ∈ found, ∃ rows, c.Backs s w ⟨cand.start, cand.stop⟩ rows ∧
    reduceRows s.greatest Double.fmax rows = some cand.high ∧
    reduceRows s.least Double.fmin rows = some cand.low

/-- A suspect joins the latest candidate, when that reaches its start and the joint spread stays
under the limit, or opens a new one. -/
theorem growCandidates_cases (limit : Double) (start t : Timestamp) (low high : Double)
    (found : List Candidate) :
    (∃ c₀ cs, found = c₀ :: cs ∧ start ≤ c₀.stop ∧
      ((c₀.high.fmax high).sub (c₀.low.fmin low)).lt limit = true ∧
      growCandidates limit start t low high found =
        { c₀ with stop := t, low := c₀.low.fmin low, high := c₀.high.fmax high } :: cs) ∨
    growCandidates limit start t low high found = ⟨start, t, low, high⟩ :: found := by
  cases found with
  | nil => exact .inr rfl
  | cons c₀ cs =>
    simp only [growCandidates]
    split
    · rename_i hjoin
      simp only [Bool.and_eq_true, decide_eq_true_eq] at hjoin
      exact .inl ⟨c₀, cs, rfl, hjoin.1, hjoin.2, rfl⟩
    · exact .inr rfl

/-- One entry of the scan leaves the candidates, or takes the entry as a suspect with its values. -/
theorem scanStep_found (c : FlatnessConfig) (w : TimeDelta) (st : Nat × List Candidate) (k i : Nat) :
    (s.scanStep c w st (k, i)).2 = st.2 ∨ ∃ mean low high, s.mean.getD i none = some mean ∧
      s.least.getD i none = some low ∧ s.greatest.getD i none = some high ∧
      c.minValid.lt mean = true ∧ mean.lt c.maxValid = true ∧ (high.sub low).lt c.flatnessLimit = true ∧
      (s.scanStep c w st (k, i)).2 = growCandidates c.flatnessLimit
        (s.times.getD (min (s.pointerAfter w st.1 k) k) default) (s.times.getD k default) low high st.2 := by
  obtain ⟨left, found⟩ := st
  simp only [scanStep, pointerAfter]
  split
  · rename_i mean low high hvals
    simp only [Prod.mk.injEq] at hvals
    obtain ⟨hm, hl, hh⟩ := hvals
    split
    · rename_i hs
      simp only [Bool.and_eq_true] at hs
      exact .inr ⟨mean, low, high, hm, hl, hh, hs.1.1, hs.1.2, hs.2, rfl⟩
    · exact .inl rfl
  · exact .inl rfl

theorem chainInv_nil (c : FlatnessConfig) (s : LinkStats) (w : TimeDelta) : ChainInv c s w [] where
  ordered := List.Pairwise.nil
  backed _ h := absurd h List.not_mem_nil

/-- Outside leap seconds in the index, none in the time order either. -/
theorem not_leap_times (hnl : ∀ t ∈ s.index, ¬ t.IsLeap) :
    ∀ p < s.index.size, ¬ (s.times.getD p default).IsLeap :=
  fun _ hp => hnl _ (getD_times_mem hp)

/-- One entry keeps the chains: a suspect that opens a candidate is a chain of its own, one that
joins the latest candidate extends its chain, and the order of the candidates is kept since
windows start and entries come in time order. -/
theorem ChainInv.step {c : FlatnessConfig} {w : TimeDelta} (hw : 0 < w.nanos)
    (hnl : ∀ t ∈ s.index, ¬ t.IsLeap) {k : Nat} {st : Nat × List Candidate}
    (hk : k < s.index.size) (hscan : ScanInv s w k st) (h : ChainInv c s w st.2) :
    ChainInv c s w (s.scanStep c w st (k, s.order.getD k 0)).2 := by
  rcases scanStep_found c w st k (s.order.getD k 0) with heq | ⟨mean, low, high, hm, hl, hh, h₁, h₂, h₃, heq⟩
  · rw [heq]
    exact h
  rw [heq]
  -- the suspect, its time and the start of its window
  set i := s.order.getD k 0
  set start := s.times.getD (min (s.pointerAfter w st.1 k) k) default
  have hki : i < s.index.size := s.getD_order_lt hk
  have ht : s.times.getD k default = s.index.getD i default := getD_times s hk
  have hnlk : ¬ (s.index.getD i default).IsLeap := hnl _ (getD_mem_index hki)
  have hws : s.WindowStart w (s.index.getD i default) start :=
    ht ▸ windowStart_pointer (c := c) hw (not_leap_times hnl) hk hscan
  have hsus : c.Suspect s i := ⟨mean, low, high, hm, hl, hh, h₁, h₂, h₃⟩
  -- every candidate found so far ends at a scanned entry, so no later than the suspect
  have hstop : ∀ cand ∈ st.2, cand.stop ≤ s.index.getD i default := by
    intro cand hcand
    obtain ⟨p, hp, hp₀⟩ := hscan.stops cand hcand
    rw [hp₀, ← ht]
    exact times_mono s (Nat.le_of_lt hp) hk
  rw [ht]
  rcases growCandidates_cases c.flatnessLimit start (s.index.getD i default) low high st.2 with
    ⟨c₀, cs, hfound, hle, hlt, hg⟩ | hg
  · -- the suspect joins the latest candidate and extends its chain by one entry
    rw [hg]
    have hord := h.ordered
    rw [hfound] at hord
    have hstop₀ := hstop c₀ (hfound ▸ List.mem_cons_self)
    obtain ⟨rows, hb, hhi, hlo⟩ := h.backed c₀ (hfound ▸ List.mem_cons_self)
    refine ⟨List.pairwise_cons.2 ⟨fun older hold => ?_, (List.pairwise_cons.1 hord).2⟩, ?_⟩
    · obtain ⟨h₁, h₂⟩ := (List.pairwise_cons.1 hord).1 older hold
      exact ⟨h₁, le_trans h₂ hstop₀⟩
    intro cand hcand
    rcases List.mem_cons.1 hcand with rfl | hcand
    · exact ⟨rows ++ [i], hb.snoc hki hsus hstop₀ hws hle hhi hh hlo hl hlt,
        reduceRows_append hhi hh, reduceRows_append hlo hl⟩
    · exact h.backed cand (hfound ▸ List.mem_cons_of_mem _ hcand)
  · -- the suspect opens a candidate of its own
    rw [hg]
    refine ⟨List.pairwise_cons.2 ⟨fun older hold => ?_, h.ordered⟩, ?_⟩
    · obtain ⟨rows, hb, -⟩ := h.backed older hold
      obtain ⟨r, hr, hrs, hrle⟩ := hb.head_le_stop
      exact ⟨hrs.le hw (hnl _ (getD_mem_index hr)) hnlk (le_trans hrle (hstop older hold)) hws,
        hstop older hold⟩
    intro cand hcand
    rcases List.mem_cons.1 hcand with rfl | hcand
    · exact ⟨[i], FlatnessConfig.Backs.single hki hsus hws hh hl h₃, reduceRows_singleton hh, reduceRows_singleton hl⟩
    · exact h.backed cand hcand
/-- The chains hold after every prefix of the scan. -/
theorem chainInv_scan {c : FlatnessConfig} {w : TimeDelta} (hw : 0 < w.nanos)
    (hnl : ∀ t ∈ s.index, ¬ t.IsLeap) : ∀ k ≤ s.index.size, ChainInv c s w (s.scan c w k).2
  | 0, _ => chainInv_nil c s w
  | k + 1, hk => by
    rw [scan_succ]
    exact (chainInv_scan hw hnl k (by omega)).step hw hnl (by omega)
      (scanInv_scan hw (not_leap_times hnl) k (by omega))

end LinkStats

/-- Outside leap seconds, the intervals reported for a link come in order of start and of end,
each lasts at least the window, and each is backed by a chain of its suspect entries. -/
theorem analyzeLink_backed (s : LinkStats) (c : FlatnessConfig) {w : TimeDelta} (hw : 0 < w.nanos)
    (hnl : ∀ t ∈ s.index, ¬ t.IsLeap) : c.BackedIntervals s w (analyzeLink s c w) := by
  have hinv := LinkStats.chainInv_scan (c := c) hw hnl s.index.size (Nat.le_refl _)
  rw [LinkStats.analyzeLink_eq]
  refine ⟨?_, fun iv hiv => ?_, fun iv hiv => ?_⟩
  · -- the candidates were opened in order, so in the reversed list they come oldest first
    apply List.Pairwise.sublist List.filter_sublist
    rw [List.pairwise_map]
    exact List.pairwise_reverse.2 hinv.ordered
  · simpa using (List.mem_filter.1 hiv).2
  · obtain ⟨cand, hcand, rfl⟩ := List.mem_map.1 (List.mem_filter.1 hiv).1
    obtain ⟨rows, hb, -⟩ := hinv.backed cand (List.mem_reverse.1 hcand)
    exact ⟨rows, hb⟩

/-- With a configuration that passes its checks, statistics as long as their index and no
timestamp in a leap second, the analysis succeeds, and for every link the intervals come in
order of start and of end, each lasts at least the window, and each is backed by a chain of
suspect entries whose first window starts at its start, that ends at its end, whose windows
each start no later than the entry before, and whose joint spread stays under the limit. -/
theorem analyzeFlatness_reports_backed_intervals {stats : List (String × LinkStats)}
    {c : FlatnessConfig} {w : TimeDelta} (hval : c.validate = .ok w)
    (hlen : ∀ p ∈ stats, p.2.mean.size = p.2.index.size ∧ p.2.least.size = p.2.index.size ∧
      p.2.greatest.size = p.2.index.size)
    (hnl : ∀ p ∈ stats, ∀ t ∈ p.2.index, ¬ t.IsLeap) :
    ∃ result, analyzeFlatness stats c = .ok result ∧
      ∀ link s, (link, s) ∈ stats → ∃ ivs, (link, ivs) ∈ result ∧ c.BackedIntervals s w ivs := by
  refine ⟨_, analyzeFlatness_eq_ok hval hlen, fun link s hs => ?_⟩
  exact ⟨analyzeLink s c w, List.mem_map.2 ⟨(link, s), hs, rfl⟩,
    analyzeLink_backed s c (FlatnessConfig.validate_pos hval) (hnl _ hs)⟩

/-- Flatness settings with a window of 0.95 s and the default band and limit. -/
def nearSecondWindow : FlatnessConfig where
  window := (Span.ofParts? 0 950000000).getD default

def nearSecondDelta : TimeDelta := (TimeDelta.ofNanos? 950000000).getD default

theorem validate_nearSecondWindow : nearSecondWindow.validate = .ok nearSecondDelta :=
  FlatnessConfig.validate_eq_ok.2 (by decide)

/-- 2016-12-31T23:59:59.5Z. -/
def halfBeforeLeap : Timestamp := (Timestamp.ofParts? 1483228799 500000000 .utc).getD default

/-- 2016-12-31T23:59:60.9Z, late in the leap second. -/
def lateInLeap : Timestamp := (Timestamp.ofParts? 1483228799 1900000000 .utc).getD default

/-- 2017-01-01T00:00:00Z. -/
def newYear2017 : Timestamp := (Timestamp.ofParts? 1483228800 0 .utc).getD default

/-- 2017-01-01T00:00:00.95Z. -/
def justAfterNewYear : Timestamp := (Timestamp.ofParts? 1483228800 950000000 .utc).getD default

/-- 2017-01-01T00:00:01.9Z. -/
def secondAfterNewYear : Timestamp := (Timestamp.ofParts? 1483228801 900000000 .utc).getD default

/-- A busy entry before midnight, then three steady ones after it. -/
def steadyChainStats : LinkStats where
  index := #[halfBeforeLeap, newYear2017, justAfterNewYear, secondAfterNewYear]
  mean := #[some ⟨0x4049000000000000⟩, some ⟨0x4049000000000000⟩, some ⟨0x4049000000000000⟩,
    some ⟨0x4049000000000000⟩]
  least := #[some ⟨0x4024000000000000⟩, some ⟨0x4048F33333333333⟩, some ⟨0x4048F33333333333⟩,
    some ⟨0x4048F33333333333⟩]
  greatest := #[some ⟨0x4056800000000000⟩, some ⟨0x40490CCCCCCCCCCD⟩, some ⟨0x40490CCCCCCCCCCD⟩,
    some ⟨0x40490CCCCCCCCCCD⟩]

theorem steadyChainStats_backed :
    nearSecondWindow.validate = .ok nearSecondDelta ∧
    ∃ result, analyzeFlatness [("a", steadyChainStats)] nearSecondWindow = .ok result ∧
      ∀ link s, (link, s) ∈ [("a", steadyChainStats)] → ∃ ivs, (link, ivs) ∈ result ∧
        nearSecondWindow.BackedIntervals s nearSecondDelta ivs :=
  ⟨validate_nearSecondWindow,
    analyzeFlatness_reports_backed_intervals validate_nearSecondWindow (by decide) (by decide)⟩

/-- The same link with a second busy entry late in the leap second before midnight. -/
def leapChainStats : LinkStats where
  index := #[halfBeforeLeap, lateInLeap, newYear2017, justAfterNewYear, secondAfterNewYear]
  mean := #[some ⟨0x4049000000000000⟩, some ⟨0x4049000000000000⟩, some ⟨0x4049000000000000⟩,
    some ⟨0x4049000000000000⟩, some ⟨0x4049000000000000⟩]
  least := #[some ⟨0x4024000000000000⟩, some ⟨0x4024000000000000⟩, some ⟨0x4048F33333333333⟩,
    some ⟨0x4048F33333333333⟩, some ⟨0x4048F33333333333⟩]
  greatest := #[some ⟨0x4056800000000000⟩, some ⟨0x4056800000000000⟩, some ⟨0x40490CCCCCCCCCCD⟩,
    some ⟨0x40490CCCCCCCCCCD⟩, some ⟨0x40490CCCCCCCCCCD⟩]

/-- The window of the entry at midnight starts at 23:59:59.05, before the entry at 23:59:59.5,
but the entry in the leap second moved the pointer past that entry, since its own window starts
at 23:59:59.95. The suspect at midnight so opens an interval at 23:59:60.9, the start of no
suspect's window, and the next two suspects extend it to 00:00:01.9. -/
theorem leapChainStats_interval_unbacked :
    analyzeFlatness [("a", leapChainStats)] nearSecondWindow =
      .ok [("a", [⟨lateInLeap, secondAfterNewYear⟩])] ∧
    ¬ ∃ rows, nearSecondWindow.Backs leapChainStats nearSecondDelta ⟨lateInLeap, secondAfterNewYear⟩ rows := by
  have hsort : (List.range 5).mergeSort (fun a b =>
      decide (leapChainStats.index.getD a default ≤ leapChainStats.index.getD b default)) = List.range 5 :=
    List.mergeSort_of_pairwise (by decide)
  have hlink : analyzeLink leapChainStats nearSecondWindow nearSecondDelta =
      [⟨lateInLeap, secondAfterNewYear⟩] := by
    unfold analyzeLink
    simp only [show leapChainStats.index.size = 5 from rfl, hsort]
    rfl
  refine ⟨by rw [analyzeFlatness_eq_ok validate_nearSecondWindow (by decide), List.map_singleton, hlink], ?_⟩
  rintro ⟨rows, hb⟩
  obtain ⟨i, hi, hws⟩ := hb.start
  obtain ⟨hlt, mean, low, high, -, hl, hh, -, -, hspread⟩ := hb.suspect i (List.mem_of_mem_head? hi)
  -- the two busy entries are not suspect, and no suspect's window starts in the leap second
  match i, hlt with
  | 0, _ =>
    cases hl
    cases hh
    exact absurd hspread (by decide)
  | 1, _ =>
    cases hl
    cases hh
    exact absurd hspread (by decide)
  | 2, _ =>
    have hlower : newYear2017.subDelta? nearSecondDelta =
        some ⟨1483228799, 50000000, Offset.utc, by decide, by decide, by decide⟩ := rfl
    have hmem : halfBeforeLeap ∈ leapChainStats.index :=
      LinkStats.getD_mem_index (s := leapChainStats) (i := 0) (by decide)
    have := hws.2.2 halfBeforeLeap hmem (fun lower hl => by
      rw [show leapChainStats.index.getD 2 default = newYear2017 from rfl, hlower] at hl
      cases hl
      decide)
    exact absurd this (by decide)
  | 3, _ =>
    have hlower : justAfterNewYear.subDelta? nearSecondDelta = some newYear2017 := rfl
    exact absurd (hws.2.1 newYear2017 hlower) (by decide)
  | 4, _ =>
    have hlower : secondAfterNewYear.subDelta? nearSecondDelta = some justAfterNewYear := rfl
    exact absurd (hws.2.1 justAfterNewYear hlower) (by decide)

end FrameCache
