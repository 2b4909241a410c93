import Mathlib
import FrameCache.Proofs.Stepping
import FrameCache.Proofs.Frames
import FrameCache.Flatness.Detect

/-!
# Flat intervals cover every fully windowed suspect

`analyzeLink` scans a link's entries in time order with a left pointer: for the entry at `t`
the pointer moves past the entries before `t - w`, so that the entry under it starts the window
of `t`. A suspect entry either opens a new candidate at that start or extends the latest
candidate to `t`. Candidates shorter than the window are dropped at the end.

A suspect whose window is full, with an entry exactly at `t - w`, is never lost: the candidate
it extends or opens starts no later than that entry (`ScanInv`: the pointer never passes an
entry at or after a window start still to come, and every candidate starts at or before the
pointer), later entries only move the candidate's end forward, and the candidate lasts at least
`w`. The last step needs the time line without leap seconds (`Timestamp.linear`): across a leap
second the span `since` counts one second less than the instants are apart, and a candidate
reaching over one can be dropped although its suspect's window is full.
-/

namespace FrameCache

namespace Timestamp

variable {t u lower : Timestamp} {d : TimeDelta}

/-- Outside leap seconds, the order of instants is that of the `linear` counts. -/
theorem le_iff_linear (ht : ¬ t.IsLeap) (hu : ¬ u.IsLeap) : t ≤ u ↔ t.linear ≤ u.linear := by
  rw [← not_lt_iff, lt_iff_linear hu ht]
  omega

/-- Moving a timestamp outside a leap second back by a positive span gives an earlier timestamp
outside a leap second, exactly the span earlier on the time line. -/
theorem subDelta?_of_not_leap (hd : 0 < d.nanos) (ht : ¬ t.IsLeap) (h : t.subDelta? d = some lower) :
    lower.linear = t.linear - d.nanos ∧ ¬ lower.IsLeap ∧ lower < t := by
  rw [subDelta?, addDelta?_of_not_leap ht] at h
  obtain ⟨h1, h2, -⟩ := ofParts?_eq_some h
  have hneg : d.neg.nanos = -d.nanos := rfl
  rw [hneg] at h1 h2
  have hnl : ¬ lower.IsLeap := by
    unfold IsLeap
    omega
  have hlin : lower.linear = t.linear - d.nanos := by
    rw [linear_of_not_leap hnl, h1, h2]
    omega
  exact ⟨hlin, hnl, (lt_iff_linear hnl ht).2 (by omega)⟩

end Timestamp

section Pointer

variable {times : Array Timestamp} {p : Timestamp → Bool}

/-- The pointer never moves back. -/
theorem le_skipWhile (times : Array Timestamp) (p : Timestamp → Bool) :
    ∀ fuel left, left ≤ skipWhile times p fuel left
  | 0, _ => Nat.le_refl _
  | fuel + 1, left => by
    unfold skipWhile
    split
    · split
      · exact Nat.le_trans (Nat.le_succ left) (le_skipWhile times p fuel (left + 1))
      · exact Nat.le_refl _
    · exact Nat.le_refl _

/-- The pointer stops at or before an entry that fails the test. -/
theorem skipWhile_le {r : Nat} (hr : r < times.size) (hp : p times[r] = false) :
    ∀ fuel left, left ≤ r → skipWhile times p fuel left ≤ r
  | 0, _, hl => hl
  | fuel + 1, left, hl => by
    unfold skipWhile
    split
    · rename_i u hu
      split
      · -- the entry passed holds the test, so it is not `r`
        rename_i hpu
        have hne : left ≠ r := by
          rintro rfl
          rw [Array.getElem?_eq_getElem hr, Option.some.injEq] at hu
          rw [← hu, hp] at hpu
          cases hpu
        exact skipWhile_le hr hp fuel (left + 1) (by omega)
      · exact hl
    · exact hl

/-- Every entry the pointer moves past holds the test. -/
theorem of_lt_skipWhile : ∀ {fuel left q : Nat}, left ≤ q → q < skipWhile times p fuel left →
    ∃ h : q < times.size, p times[q] = true
  | 0, _, _, hl, hq => by
    simp only [skipWhile] at hq
    omega
  | fuel + 1, left, q, hl, hq => by
    unfold skipWhile at hq
    split at hq
    · rename_i u hu
      split at hq
      · rename_i hpu
        rcases Nat.lt_or_ge q (left + 1) with hql | hql
        · -- `q` is the entry just passed
          obtain rfl : q = left := by omega
          obtain ⟨hlt, hget⟩ := Array.getElem?_eq_some_iff.1 hu
          exact ⟨hlt, hget ▸ hpu⟩
        · exact of_lt_skipWhile hql hq
      · omega
    · omega

end Pointer

section Candidates

variable (limit : Double) (start t : Timestamp) (low high : Double)

/-- Every candidate after a suspect is the one it opens, or an earlier one with its start,
ending where it ended or at the suspect. -/
theorem mem_growCandidates {found : List Candidate} {k : Candidate} (hk : k ∈ growCandidates limit start t low high found) :
    (k.start = start ∧ k.stop = t) ∨ ∃ c ∈ found, k.start = c.start ∧ (k.stop = c.stop ∨ k.stop = t) := by
  cases found with
  | nil =>
    simp only [growCandidates, List.mem_singleton] at hk
    exact .inl (by rw [hk]; exact ⟨rfl, rfl⟩)
  | cons c cs =>
    simp only [growCandidates] at hk
    split at hk
    · rcases List.mem_cons.1 hk with rfl | hk
      · exact .inr ⟨c, List.mem_cons_self, rfl, .inr rfl⟩
      · exact .inr ⟨k, List.mem_cons_of_mem _ hk, rfl, .inl rfl⟩
    · rcases List.mem_cons.1 hk with rfl | hk
      · exact .inl ⟨rfl, rfl⟩
      · exact .inr ⟨k, hk, rfl, .inl rfl⟩

/-- After a suspect, some candidate ends at it: the one it opens, or an earlier one it
extends. -/
theorem exists_stop_growCandidates (found : List Candidate) :
    ∃ k ∈ growCandidates limit start t low high found, k.stop = t ∧
      (k.start = start ∨ ∃ c ∈ found, k.start = c.start) := by
  cases found with
  | nil => exact ⟨_, List.mem_singleton_self _, rfl, .inl rfl⟩
  | cons c cs =>
    simp only [growCandidates]
    split
    · exact ⟨_, List.mem_cons_self, rfl, .inr ⟨c, List.mem_cons_self, rfl⟩⟩
    · exact ⟨_, List.mem_cons_self, rfl, .inl rfl⟩

/-- A suspect keeps every earlier candidate's start, and its end or moves it to the suspect. -/
theorem growCandidates_keeps {found : List Candidate} {c : Candidate} (hc : c ∈ found) :
    ∃ k ∈ growCandidates limit start t low high found, k.start = c.start ∧ (k.stop = c.stop ∨ k.stop = t) := by
  cases found with
  | nil => cases hc
  | cons c₀ cs =>
    simp only [growCandidates]
    split
    · rcases List.mem_cons.1 hc with rfl | hc
      · exact ⟨_, List.mem_cons_self, rfl, .inr rfl⟩
      · exact ⟨c, List.mem_cons_of_mem _ hc, rfl, .inl rfl⟩
    · exact ⟨c, List.mem_cons_of_mem _ hc, rfl, .inl rfl⟩

end Candidates

namespace LinkStats

/-- The rows of the statistics in time order, ties in row order. -/
def order (s : LinkStats) : List Nat :=
  (List.range s.index.size).mergeSort fun a b => decide (s.index.getD a default ≤ s.index.getD b default)

/-- The timestamps in time order. -/
def times (s : LinkStats) : Array Timestamp := (s.order.map (s.index.getD · default)).toArray

/-- One entry of the scan of `analyzeLink`: the entry at sorted position `pos`, of row `i`. -/
def scanStep (s : LinkStats) (c : FlatnessConfig) (window : TimeDelta) (acc : Nat × List Candidate)
    (entry : Nat × Nat) : Nat × List Candidate :=
  let (left, found) := acc
  let (pos, i) := entry
  let t := s.times.getD pos default
  let left := match t.subDelta? window with
    | some lower => skipWhile s.times (fun u => decide (u < lower)) s.times.size left
    | none => left
  match (s.mean.getD i none, s.least.getD i none, s.greatest.getD i none) with
  | (some mean, some low, some high) =>
    if c.minValid.lt mean && mean.lt c.maxValid && (high.sub low).lt c.flatnessLimit then
      (left, growCandidates c.flatnessLimit (s.times.getD (min left pos) default) t low high found)
    else (left, found)
  | _ => (left, found)

/-- The state of the scan after the first `k` entries in time order. -/
def scan (s : LinkStats) (c : FlatnessConfig) (window : TimeDelta) (k : Nat) : Nat × List Candidate :=
  ((List.range k).map fun p => (p, s.order.getD p 0)).foldl (s.scanStep c window) (0, [])

theorem length_order (s : LinkStats) : s.order.length = s.index.size := by
  simp [order]

theorem size_times (s : LinkStats) : s.times.size = s.index.size := by
  simp [times, length_order]

theorem zip_range_order (s : LinkStats) :
    (List.range s.index.size).zip s.order = (List.range s.index.size).map fun p => (p, s.order.getD p 0) := by
  apply List.ext_getElem (by simp [length_order])
  intro p h₁ h₂
  simp only [List.length_zip, List.length_range, length_order, Nat.min_self] at h₁
  simp [List.getD_eq_getElem?_getD, List.getElem?_eq_getElem (show p < s.order.length by
    rw [length_order]; exact h₁)]

/-- `analyzeLink` is the scan over all entries, its candidates in the order they were opened,
those shorter than the window dropped. -/
theorem analyzeLink_eq (s : LinkStats) (c : FlatnessConfig) (window : TimeDelta) :
    analyzeLink s c window =
      (((s.scan c window s.index.size).2.reverse.map fun k => (⟨k.start, k.stop⟩ : Interval)).filter
        fun i => window ≤ i.duration) := by
  rw [scan, ← zip_range_order]
  rfl

theorem order_perm (s : LinkStats) : s.order.Perm (List.range s.index.size) := List.mergeSort_perm _ _

theorem getD_order_lt (s : LinkStats) {p : Nat} (hp : p < s.index.size) : s.order.getD p 0 < s.index.size := by
  have hmem : s.order.getD p 0 ∈ s.order := by
    rw [List.getD_eq_getElem _ _ (by rw [length_order]; exact hp)]
    exact List.getElem_mem _
  exact List.mem_range.1 (s.order_perm.subset hmem)

/-- Every row has a place in the time order. -/
theorem exists_getD_order (s : LinkStats) {i : Nat} (hi : i < s.index.size) :
    ∃ p < s.index.size, s.order.getD p 0 = i := by
  obtain ⟨p, hp, rfl⟩ := List.getElem_of_mem (s.order_perm.symm.subset (List.mem_range.2 hi))
  refine ⟨p, by rw [← length_order]; exact hp, ?_⟩
  exact List.getD_eq_getElem _ _ hp

theorem getD_times (s : LinkStats) {p : Nat} (hp : p < s.index.size) :
    s.times.getD p default = s.index.getD (s.order.getD p 0) default := by
  have hp' : p < s.order.length := by rw [length_order]; exact hp
  simp [times, Array.getD_eq_getD_getElem?, List.getElem?_eq_getElem hp']

/-- The timestamps in time order never go back. -/
theorem times_mono (s : LinkStats) {p q : Nat} (hpq : p ≤ q) (hq : q < s.index.size) :
    s.times.getD p default ≤ s.times.getD q default := by
  rcases Nat.eq_or_lt_of_le hpq with rfl | hlt
  · exact le_refl _
  · have hsorted : s.order.Pairwise fun a b => decide (s.index.getD a default ≤ s.index.getD b default) :=
      List.pairwise_mergeSort
        (fun a b c hab hbc => by simp only [decide_eq_true_eq] at *; exact le_trans hab hbc)
        (fun a b => by simpa using Timestamp.le_total _ _) (List.range s.index.size)
    have hq' : q < s.order.length := by rw [length_order]; exact hq
    have := List.pairwise_iff_getElem.1 hsorted p q (by omega) hq' hlt
    rw [getD_times s (by omega), getD_times s hq, List.getD_eq_getElem _ _ (by omega), List.getD_eq_getElem _ _ hq']
    simpa using this

/-- The pointer after the entry at sorted position `k`: past the entries before the start of
its window, when that start is a timestamp. -/
def pointerAfter (s : LinkStats) (window : TimeDelta) (left k : Nat) : Nat :=
  match (s.times.getD k default).subDelta? window with
  | some lower => skipWhile s.times (fun u => decide (u < lower)) s.times.size left
  | none => left

variable {s : LinkStats}

/-- What one entry of the scan does: the pointer moves on, and the candidates stay or take the
entry as a suspect. -/
theorem scanStep_cases (c : FlatnessConfig) (window : TimeDelta) (st : Nat × List Candidate) (k i : Nat) :
    (s.scanStep c window st (k, i)).1 = s.pointerAfter window st.1 k ∧
    ((s.scanStep c window st (k, i)).2 = st.2 ∨ ∃ low high, (s.scanStep c window st (k, i)).2 =
      growCandidates c.flatnessLimit (s.times.getD (min (s.pointerAfter window st.1 k) k) default)
        (s.times.getD k default) low high st.2) := by
  obtain ⟨left, found⟩ := st
  simp only [scanStep, pointerAfter]
  split
  · split
    · exact ⟨rfl, .inr ⟨_, _, rfl⟩⟩
    · exact ⟨rfl, .inl rfl⟩
  · exact ⟨rfl, .inl rfl⟩

/-- A suspect entry is taken into the candidates. -/
theorem scanStep_of_suspect {c : FlatnessConfig} {window : TimeDelta} {st : Nat × List Candidate}
    {k i : Nat} {mean low high : Double} (hm : s.mean.getD i none = some mean)
    (hl : s.least.getD i none = some low) (hh : s.greatest.getD i none = some high)
    (hs : (c.minValid.lt mean && mean.lt c.maxValid && (high.sub low).lt c.flatnessLimit) = true) :
    (s.scanStep c window st (k, i)).2 =
      growCandidates c.flatnessLimit (s.times.getD (min (s.pointerAfter window st.1 k) k) default)
        (s.times.getD k default) low high st.2 := by
  obtain ⟨left, found⟩ := st
  simp only [scanStep, pointerAfter, hm, hl, hh, hs, if_true]

theorem le_pointerAfter (s : LinkStats) (window : TimeDelta) (left k : Nat) :
    left ≤ s.pointerAfter window left k := by
  unfold pointerAfter
  split
  · exact le_skipWhile _ _ _ _
  · exact Nat.le_refl _

theorem getD_times_eq_getElem {p : Nat} (hp : p < s.times.size) : s.times.getD p default = s.times[p] := by
  simp [Array.getD_eq_getD_getElem?, hp]

/-- The pointer stops at or before an entry at or after the start of the window. -/
theorem pointerAfter_le {w : TimeDelta} {k : Nat} {lower : Timestamp}
    (hlower : (s.times.getD k default).subDelta? w = some lower) {r left : Nat}
    (hr : r < s.index.size) (hle : lower ≤ s.times.getD r default) (hl : left ≤ r) :
    s.pointerAfter w left k ≤ r := by
  have hr' : r < s.times.size := by rwa [size_times]
  unfold pointerAfter
  rw [hlower]
  refine skipWhile_le hr' ?_ _ _ hl
  rw [← getD_times_eq_getElem hr', decide_eq_false_iff_not]
  exact Timestamp.not_lt_iff.2 hle

/-- An entry the pointer moves past, outside leap seconds, lies more than the window before the
entry the pointer moves for. -/
theorem linear_lt_of_passed {w : TimeDelta} (hw : 0 < w.nanos)
    (hnl : ∀ p < s.index.size, ¬ (s.times.getD p default).IsLeap) {k left q : Nat}
    (hk : k < s.index.size) (hlq : left ≤ q) (hq : q < s.pointerAfter w left k) :
    (s.times.getD q default).linear + w.nanos < (s.times.getD k default).linear := by
  unfold pointerAfter at hq
  split at hq
  · rename_i lower hlower
    obtain ⟨hqs, hpq⟩ := of_lt_skipWhile hlq hq
    have hqn : q < s.index.size := by rwa [size_times] at hqs
    obtain ⟨hlin, hnl', -⟩ := Timestamp.subDelta?_of_not_leap hw (hnl k hk) hlower
    have hlt : s.times.getD q default < lower := by
      rw [getD_times_eq_getElem hqs]
      simpa using hpq
    have := (Timestamp.lt_iff_linear (hnl q hqn) hnl').1 hlt
    omega
  · omega

/-- What holds of the scan after the first `k` entries in time order. -/
structure ScanInv (s : LinkStats) (w : TimeDelta) (k : Nat) (st : Nat × List Candidate) : Prop where
  /-- the pointer has moved only past entries more than the window before a scanned entry -/
  passed : ∀ q < st.1, ∃ p < k, (s.times.getD q default).linear + w.nanos < (s.times.getD p default).linear
  /-- every candidate starts at an entry not after the pointer -/
  starts : ∀ cand ∈ st.2, ∃ q ≤ st.1, q < s.index.size ∧ cand.start = s.times.getD q default
  /-- every candidate ends at a scanned entry -/
  stops : ∀ cand ∈ st.2, ∃ p < k, cand.stop = s.times.getD p default

theorem scanInv_zero (s : LinkStats) (w : TimeDelta) : ScanInv s w 0 (0, []) where
  passed q hq := absurd hq (Nat.not_lt_zero q)
  starts _ h := absurd h List.not_mem_nil
  stops _ h := absurd h List.not_mem_nil

/-- One entry keeps the invariant: the pointer moves only past entries before the window of
the entry, and a candidate the entry opens starts under the pointer and ends at the entry. -/
theorem ScanInv.step {c : FlatnessConfig} {w : TimeDelta} (hw : 0 < w.nanos)
    (hnl : ∀ p < s.index.size, ¬ (s.times.getD p default).IsLeap) {k : Nat} {st : Nat × List Candidate}
    (hk : k < s.index.size) (h : ScanInv s w k st) (i : Nat) :
    ScanInv s w (k + 1) (s.scanStep c w st (k, i)) := by
  obtain ⟨hleft, hcands⟩ := scanStep_cases c w st k i
  have hmono := le_pointerAfter s w st.1 k
  -- every candidate after the entry is an earlier one, kept or moved to the entry, or a new one
  have hcases : ∀ cand ∈ (s.scanStep c w st (k, i)).2,
      (cand.start = s.times.getD (min (s.pointerAfter w st.1 k) k) default ∧
        cand.stop = s.times.getD k default) ∨
      ∃ c₀ ∈ st.2, cand.start = c₀.start ∧ (cand.stop = c₀.stop ∨ cand.stop = s.times.getD k default) := by
    intro cand hcand
    rcases hcands with heq | ⟨low, high, heq⟩
    · rw [heq] at hcand
      exact .inr ⟨cand, hcand, rfl, .inl rfl⟩
    · rw [heq] at hcand
      exact mem_growCandidates _ _ _ _ _ hcand
  refine ⟨fun q hq => ?_, fun cand hcand => ?_, fun cand hcand => ?_⟩
  · rw [hleft] at hq
    rcases Nat.lt_or_ge q st.1 with hq' | hq'
    · obtain ⟨p, hp, hlt⟩ := h.passed q hq'
      exact ⟨p, Nat.lt_succ_of_lt hp, hlt⟩
    · exact ⟨k, Nat.lt_succ_self k, linear_lt_of_passed hw hnl hk hq' hq⟩
  · rw [hleft]
    rcases hcases cand hcand with ⟨hstart, -⟩ | ⟨c₀, hc₀, hstart, -⟩
    · exact ⟨_, Nat.min_le_left _ _, Nat.lt_of_le_of_lt (Nat.min_le_right _ _) hk, hstart⟩
    · obtain ⟨q, hq, hqn, hq₀⟩ := h.starts c₀ hc₀
      exact ⟨q, Nat.le_trans hq hmono, hqn, hstart.trans hq₀⟩
  · rcases hcases cand hcand with ⟨-, hstop⟩ | ⟨c₀, hc₀, -, hstop | hstop⟩
    · exact ⟨k, Nat.lt_succ_self k, hstop⟩
    · obtain ⟨p, hp, hp₀⟩ := h.stops c₀ hc₀
      exact ⟨p, Nat.lt_succ_of_lt hp, hstop.trans hp₀⟩
    · exact ⟨k, Nat.lt_succ_self k, hstop⟩

theorem scan_succ (c : FlatnessConfig) (w : TimeDelta) (k : Nat) :
    s.scan c w (k + 1) = s.scanStep c w (s.scan c w k) (k, s.order.getD k 0) := by
  simp only [scan, List.range_succ, List.map_append, List.foldl_append, List.map_cons, List.map_nil,
    List.foldl_cons, List.foldl_nil]

/-- Some candidate starts at or before `x` and ends at or after the entry at sorted position
`p₀`. -/
def Covers (s : LinkStats) (p₀ : Nat) (x : Timestamp) (found : List Candidate) : Prop :=
  ∃ cand ∈ found, cand.start ≤ x ∧ s.times.getD p₀ default ≤ cand.stop

/-- A later entry keeps a covering candidate: its start stays, its end stays or moves to the
entry. -/
theorem Covers.step {c : FlatnessConfig} {w : TimeDelta} {p₀ k : Nat} {x : Timestamp}
    {st : Nat × List Candidate} (hk : k < s.index.size) (hp₀ : p₀ ≤ k) (h : s.Covers p₀ x st.2) (i : Nat) :
    s.Covers p₀ x (s.scanStep c w st (k, i)).2 := by
  obtain ⟨cand, hcand, hstart, hstop⟩ := h
  rcases (scanStep_cases c w st k i).2 with heq | ⟨low, high, heq⟩
  · rw [heq]
    exact ⟨cand, hcand, hstart, hstop⟩
  · rw [heq]
    obtain ⟨cand', hcand', hs, hs' | hs'⟩ := growCandidates_keeps c.flatnessLimit
      (s.times.getD (min (s.pointerAfter w st.1 k) k) default) (s.times.getD k default) low high hcand
    · exact ⟨cand', hcand', hs ▸ hstart, hs' ▸ hstop⟩
    · exact ⟨cand', hcand', hs ▸ hstart, hs' ▸ times_mono s hp₀ hk⟩

/-- A suspect entry at sorted position `p₀` whose window starts at `lower`, with an entry `r₀` at
or after `lower`: after it, some candidate starts at or before that entry and ends at the
suspect. -/
theorem covers_scanStep_of_suspect {c : FlatnessConfig} {w : TimeDelta} (hw : 0 < w.nanos)
    (hnl : ∀ p < s.index.size, ¬ (s.times.getD p default).IsLeap) {p₀ : Nat} {st : Nat × List Candidate}
    (hp₀ : p₀ < s.index.size) (h : ScanInv s w p₀ st) {i : Nat} {mean low high : Double}
    (hm : s.mean.getD i none = some mean) (hl : s.least.getD i none = some low)
    (hh : s.greatest.getD i none = some high)
    (hs : (c.minValid.lt mean && mean.lt c.maxValid && (high.sub low).lt c.flatnessLimit) = true)
    {lower : Timestamp} (hlower : (s.times.getD p₀ default).subDelta? w = some lower)
    {r₀ : Nat} (hr₀ : r₀ < s.index.size) (hle : lower ≤ s.times.getD r₀ default) :
    s.Covers p₀ (s.times.getD r₀ default) (s.scanStep c w st (p₀, i)).2 := by
  -- the pointer has not passed `r₀`: what it passed lies more than the window before an
  -- entry no later than the suspect, and `r₀` does not
  have hleft : st.1 ≤ r₀ := by
    by_contra hlt
    obtain ⟨p, hp, hpass⟩ := h.passed r₀ (Nat.lt_of_not_le hlt)
    obtain ⟨hlin, hnl', -⟩ := Timestamp.subDelta?_of_not_leap hw (hnl p₀ hp₀) hlower
    have h₁ := (Timestamp.le_iff_linear (hnl p (by omega)) (hnl p₀ hp₀)).1
      (times_mono s (Nat.le_of_lt hp) hp₀)
    have h₂ := (Timestamp.le_iff_linear hnl' (hnl r₀ hr₀)).1 hle
    omega
  have hptr : s.pointerAfter w st.1 p₀ ≤ r₀ := pointerAfter_le hlower hr₀ hle hleft
  rw [scanStep_of_suspect hm hl hh hs]
  obtain ⟨cand, hcand, hstop, hstart⟩ := exists_stop_growCandidates c.flatnessLimit
    (s.times.getD (min (s.pointerAfter w st.1 p₀) p₀) default) (s.times.getD p₀ default) low high st.2
  refine ⟨cand, hcand, ?_, hstop ▸ le_refl _⟩
  rcases hstart with hstart | ⟨c₀, hc₀, hstart⟩
  · -- a new candidate starts under the pointer
    rw [hstart]
    exact times_mono s (Nat.le_trans (Nat.min_le_left _ _) hptr) hr₀
  · -- an extended one started under an earlier pointer
    obtain ⟨q, hq, -, hq₀⟩ := h.starts c₀ hc₀
    have hmono := le_pointerAfter s w st.1 p₀
    rw [hstart, hq₀]
    exact times_mono s (by omega) hr₀

/-- The invariant holds after every prefix of the scan. -/
theorem scanInv_scan {c : FlatnessConfig} {w : TimeDelta} (hw : 0 < w.nanos)
    (hnl : ∀ p < s.index.size, ¬ (s.times.getD p default).IsLeap) :
    ∀ k ≤ s.index.size, ScanInv s w k (s.scan c w k)
  | 0, _ => scanInv_zero s w
  | k + 1, hk => by
    rw [scan_succ]
    exact (scanInv_scan hw hnl k (by omega)).step hw hnl (by omega) _

/-- Once the suspect is scanned, some candidate covers it for the rest of the scan. -/
theorem covers_scan {c : FlatnessConfig} {w : TimeDelta} (hw : 0 < w.nanos)
    (hnl : ∀ p < s.index.size, ¬ (s.times.getD p default).IsLeap) {p₀ : Nat} (hp₀ : p₀ < s.index.size)
    {mean low high : Double} (hm : s.mean.getD (s.order.getD p₀ 0) none = some mean)
    (hl : s.least.getD (s.order.getD p₀ 0) none = some low)
    (hh : s.greatest.getD (s.order.getD p₀ 0) none = some high)
    (hs : (c.minValid.lt mean && mean.lt c.maxValid && (high.sub low).lt c.flatnessLimit) = true)
    {lower : Timestamp} (hlower : (s.times.getD p₀ default).subDelta? w = some lower)
    {r₀ : Nat} (hr₀ : r₀ < s.index.size) (hle : lower ≤ s.times.getD r₀ default) :
    ∀ k ≤ s.index.size, p₀ < k → s.Covers p₀ (s.times.getD r₀ default) (s.scan c w k).2 := by
  intro k
  induction k with
  | zero => exact fun _ h => absurd h (Nat.not_lt_zero _)
  | succ k ih =>
    intro hk hlt
    rw [scan_succ]
    rcases Nat.lt_or_ge p₀ k with hlt' | hge
    · exact (ih (by omega) hlt').step (by omega) (Nat.le_of_lt hlt') _
    · obtain rfl : p₀ = k := by omega
      exact covers_scanStep_of_suspect hw hnl hp₀ (scanInv_scan hw hnl p₀ (by omega)) hm hl hh hs
        hlower hr₀ hle

end LinkStats

namespace FlatnessConfig

/-- Entry `i` of a link's statistics is suspect: its mean, least and greatest values are all
there, the mean lies strictly inside the valid band and the spread is under the limit. -/
def Suspect (c : FlatnessConfig) (s : LinkStats) (i : Nat) : Prop :=
  ∃ mean low high, s.mean.getD i none = some mean ∧ s.least.getD i none = some low ∧
    s.greatest.getD i none = some high ∧ c.minValid.lt mean = true ∧ mean.lt c.maxValid = true ∧
    (high.sub low).lt c.flatnessLimit = true

/-- A configuration passes its checks exactly when its window is a positive time delta, its valid
band is not empty, its limit is positive and both column names are given; the window is then
the result. -/
theorem validate_eq_ok {c : FlatnessConfig} {w : TimeDelta} :
    c.validate = .ok w ↔ (TimeDelta.ofSpan? c.window).filter (0 < ·.nanos) = some w ∧
      c.minValid.lt c.maxValid = true ∧ Double.zero.lt c.flatnessLimit = true ∧
      c.linkColumn.isEmpty = false ∧ c.dataColumn.isEmpty = false := by
  unfold validate
  cases hf : (TimeDelta.ofSpan? c.window).filter (0 < ·.nanos) with
  | none => simp [throw, throwThe, MonadExceptOf.throw]
  | some w' =>
    -- one case for each outcome of the three checks that follow the window
    cases hr : c.minValid.lt c.maxValid <;> cases hl : Double.zero.lt c.flatnessLimit <;>
      cases ha : c.linkColumn.isEmpty <;> cases hb : c.dataColumn.isEmpty <;>
      simp [throw, throwThe, MonadExceptOf.throw, pure, Except.pure, bind, Except.bind]

theorem validate_pos {c : FlatnessConfig} {w : TimeDelta} (h : c.validate = .ok w) : 0 < w.nanos := by
  obtain ⟨hf, -⟩ := validate_eq_ok.1 h
  obtain ⟨-, hpos⟩ := Option.filter_eq_some_iff.1 hf
  simpa using hpos

/-- Every suspect entry of every link whose link has an entry exactly one window `w` earlier lies
in an interval reported for that link that starts no later than that entry. -/
def CoversWindowedSuspects (c : FlatnessConfig) (w : TimeDelta) (stats : List (String × LinkStats))
    (result : List (String × List Interval)) : Prop :=
  ∀ link s, (link, s) ∈ stats → ∀ i < s.index.size, c.Suspect s i →
    ∀ lower, (s.index.getD i default).subDelta? w = some lower →
    ∀ j < s.index.size, s.index.getD j default ≤ lower → lower ≤ s.index.getD j default →
      ∃ ivs, (link, ivs) ∈ result ∧
        ∃ iv ∈ ivs, iv.start ≤ s.index.getD j default ∧ s.index.getD i default ≤ iv.stop

end FlatnessConfig

/-- With a configuration that passes its checks and statistics as long as their index, the
analysis reports `analyzeLink` for every link. -/
theorem analyzeFlatness_eq_ok {stats : List (String × LinkStats)} {c : FlatnessConfig}
    {w : TimeDelta} (hval : c.validate = .ok w)
    (hlen : ∀ p ∈ stats, p.2.mean.size = p.2.index.size ∧ p.2.least.size = p.2.index.size ∧
      p.2.greatest.size = p.2.index.size) :
    analyzeFlatness stats c = .ok (stats.map fun p => (p.1, analyzeLink p.2 c w)) := by
  unfold analyzeFlatness
  rw [hval]
  apply mapM_eq_ok_map
  rintro ⟨link, s⟩ hp
  obtain ⟨h₁, h₂, h₃⟩ := hlen _ hp
  simp [h₁, h₂, h₃, pure, Except.pure, bind, Except.bind]

/-- Outside leap seconds, a suspect entry at `t` whose link has an entry exactly at `t - w` lies
in a reported interval that starts no later than that entry. -/
theorem analyzeLink_covers_windowed_suspect (s : LinkStats) (c : FlatnessConfig) {w : TimeDelta}
    (hw : 0 < w.nanos) (hnl : ∀ t ∈ s.index, ¬ t.IsLeap) {i : Nat} (hi : i < s.index.size)
    (hsus : c.Suspect s i) {lower : Timestamp} (hlower : (s.index.getD i default).subDelta? w = some lower)
    {j : Nat} (hj : j < s.index.size) (hjl : s.index.getD j default ≤ lower)
    (hlj : lower ≤ s.index.getD j default) :
    ∃ iv ∈ analyzeLink s c w, iv.start ≤ s.index.getD j default ∧ s.index.getD i default ≤ iv.stop := by
  obtain ⟨mean, low, high, hm, hl, hh, h₁, h₂, h₃⟩ := hsus
  have hnl' : ∀ p < s.index.size, ¬ (s.times.getD p default).IsLeap := fun p hp => by
    rw [LinkStats.getD_times s hp]
    have hlt := s.getD_order_lt hp
    apply hnl
    rw [Array.getD_eq_getD_getElem?, Array.getElem?_eq_getElem hlt, Option.getD_some]
    exact Array.getElem_mem hlt
  -- the places of the suspect and of the entry at the start of its window in time order
  obtain ⟨p₀, hp₀, hi₀⟩ := s.exists_getD_order hi
  obtain ⟨r₀, hr₀, hj₀⟩ := s.exists_getD_order hj
  have ht : s.times.getD p₀ default = s.index.getD i default := by rw [s.getD_times hp₀, hi₀]
  have hr : s.times.getD r₀ default = s.index.getD j default := by rw [s.getD_times hr₀, hj₀]
  have hs : (c.minValid.lt mean && mean.lt c.maxValid && (high.sub low).lt c.flatnessLimit) = true := by
    simp [h₁, h₂, h₃]
  obtain ⟨cand, hcand, hstart, hstop⟩ := s.covers_scan hw hnl' hp₀ (hi₀ ▸ hm) (hi₀ ▸ hl) (hi₀ ▸ hh) hs
    (ht ▸ hlower) hr₀ (hr ▸ hlj) s.index.size (Nat.le_refl _) hp₀
  rw [hr] at hstart
  rw [ht] at hstop
  -- the candidate lasts at least the window: it reaches from no later than `t - w` to `t`
  have hinv := s.scanInv_scan (c := c) hw hnl' s.index.size (Nat.le_refl _)
  obtain ⟨q, -, hq, hq₀⟩ := hinv.starts cand hcand
  obtain ⟨p, hp, hp₁⟩ := hinv.stops cand hcand
  have hnls : ¬ cand.start.IsLeap := hq₀ ▸ hnl' q hq
  have hnle : ¬ cand.stop.IsLeap := hp₁ ▸ hnl' p hp
  have hnli : ¬ (s.index.getD i default).IsLeap := ht ▸ hnl' p₀ hp₀
  have hnlj : ¬ (s.index.getD j default).IsLeap := hr ▸ hnl' r₀ hr₀
  obtain ⟨hlin, hnlw, -⟩ := Timestamp.subDelta?_of_not_leap hw hnli hlower
  have e₁ := (Timestamp.le_iff_linear hnls hnlj).1 hstart
  have e₂ := (Timestamp.le_iff_linear hnlj hnlw).1 hjl
  have e₃ := (Timestamp.le_iff_linear hnli hnle).1 hstop
  have hdur : w ≤ cand.stop.since cand.start := by
    show w.nanos ≤ (cand.stop.since cand.start).nanos
    rw [Timestamp.since_of_not_leap hnle hnls]
    omega
  refine ⟨⟨cand.start, cand.stop⟩, ?_, hstart, hstop⟩
  rw [LinkStats.analyzeLink_eq, List.mem_filter, List.mem_map]
  exact ⟨⟨cand, List.mem_reverse.2 hcand, rfl⟩, decide_eq_true hdur⟩

/-- With a configuration that passes its checks and statistics as long as their index, and no
timestamp in a leap second, the analysis succeeds and misses no suspect entry whose window is
full. -/
theorem analyzeFlatness_covers_windowed_suspects {stats : List (String × LinkStats)}
    {c : FlatnessConfig} {w : TimeDelta} (hval : c.validate = .ok w)
    (hlen : ∀ p ∈ stats, p.2.mean.size = p.2.index.size ∧ p.2.least.size = p.2.index.size ∧
      p.2.greatest.size = p.2.index.size)
    (hnl : ∀ p ∈ stats, ∀ t ∈ p.2.index, ¬ t.IsLeap) :
    ∃ result, analyzeFlatness stats c = .ok result ∧ c.CoversWindowedSuspects w stats result := by
  refine ⟨_, analyzeFlatness_eq_ok hval hlen, ?_⟩
  intro link s hs i hi hsus lower hlower j hj hjl hlj
  refine ⟨analyzeLink s c w, List.mem_map.2 ⟨(link, s), hs, rfl⟩, ?_⟩
  exact analyzeLink_covers_windowed_suspect s c (FlatnessConfig.validate_pos hval) (hnl _ hs) hi
    hsus hlower hj hjl hlj

/-- Flatness settings with a window of one and a half seconds and the default band and limit. -/
def shortWindow : FlatnessConfig where
  window := (Span.ofParts? 1 500000000).getD default

def shortWindowDelta : TimeDelta := (TimeDelta.ofNanos? 1500000000).getD default

theorem validate_shortWindow : shortWindow.validate = .ok shortWindowDelta :=
  FlatnessConfig.validate_eq_ok.2 (by decide)

/-- One link around the new year 2017: a busy entry at 23:59:59, then two steady ones, the first
one and a half seconds after it. -/
def steadyStats : LinkStats where
  index := #[(Timestamp.ofParts? 1483228799 0 .utc).getD default,
    (Timestamp.ofParts? 1483228800 500000000 .utc).getD default,
    (Timestamp.ofParts? 1483228801 0 .utc).getD default]
  mean := #[some ⟨0x4049000000000000⟩, some ⟨0x4049000000000000⟩, some ⟨0x4049000000000000⟩]
  least := #[some ⟨0x4024000000000000⟩, some ⟨0x4048F33333333333⟩, some ⟨0x4048F33333333333⟩]
  greatest := #[some ⟨0x4056800000000000⟩, some ⟨0x40490CCCCCCCCCCD⟩, some ⟨0x40490CCCCCCCCCCD⟩]

theorem steadyStats_covered :
    ∃ result, analyzeFlatness [("a", steadyStats)] shortWindow = .ok result ∧
      shortWindow.CoversWindowedSuspects shortWindowDelta [("a", steadyStats)] result :=
  analyzeFlatness_covers_windowed_suspects validate_shortWindow (by decide) (by decide)

/-- The same entries with the second one in the leap second 23:59:60.5, still one and a half
seconds after the first. -/
def leapStats : LinkStats :=
  { steadyStats with
    index := #[(Timestamp.ofParts? 1483228799 0 .utc).getD default,
      (Timestamp.ofParts? 1483228799 1500000000 .utc).getD default,
      (Timestamp.ofParts? 1483228800 0 .utc).getD default] }

/-- Across the leap second the suspect entry at 23:59:60.5 has its full window, yet the link's
only candidate, from 23:59:59 to 00:00:00, counts one second and is dropped. -/
theorem leapStats_suspect_uncovered :
    analyzeFlatness [("a", leapStats)] shortWindow = .ok [("a", [])] ∧
      ¬ shortWindow.CoversWindowedSuspects shortWindowDelta [("a", leapStats)] [("a", [])] := by
  have hsort : (List.range 3).mergeSort (fun a b =>
      decide (leapStats.index.getD a default ≤ leapStats.index.getD b default)) = List.range 3 :=
    List.mergeSort_of_pairwise (by decide)
  have hlink : analyzeLink leapStats shortWindow shortWindowDelta = [] := by
    unfold analyzeLink
    simp only [show leapStats.index.size = 3 from rfl, hsort]
    rw [← List.isEmpty_iff]
    decide +kernel
  refine ⟨by rw [analyzeFlatness_eq_ok validate_shortWindow (by decide), List.map_singleton, hlink], ?_⟩
  intro hcov
  have hsus : shortWindow.Suspect leapStats 1 :=
    ⟨_, _, _, rfl, rfl, rfl, by decide, by decide, by decide⟩
  obtain ⟨ivs, hivs, iv, hiv, -⟩ := hcov "a" leapStats (List.mem_singleton_self _) 1 (by decide) hsus
    (leapStats.index.getD 0 default) rfl 0 (by decide) (le_refl _) (le_refl _)
  rw [List.mem_singleton, Prod.mk.injEq] at hivs
  rw [hivs.2] at hiv
  cases hiv

end FrameCache
