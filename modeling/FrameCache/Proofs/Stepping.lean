import Mathlib
import FrameCache.Proofs.Listing

/-!
# Stepping through time

Adding a positive span to a timestamp moves it forward, in the order of instants, and by
exactly the span on the time line that skips leap seconds (`Timestamp.linear`), where a leap
second is counted as the second before it once more (`addDelta?_of_pos`). A timestamp can stay
in a leap second it is in, but never enters one.

`Timestamp.advance` adds a span a given number of times, as a walk through a window does. On
that grid the timestamps grow strictly, and outside leap seconds the `linear` count, the order
of instants and the difference `since` all agree. The bound of the walk, `stepBound`, is
enough steps to pass any end (`stop_le_advance_stepBound`): a step leaves a leap second at most
once, so the raw nanosecond count falls behind the steps by less than a second.
-/

namespace FrameCache

namespace Timestamp

variable {t t' u a b start stop : Timestamp} {d step : TimeDelta} {i j : Nat}

/-- Whether the timestamp lies in a leap second. -/
def IsLeap (t : Timestamp) : Prop := 1000000000 ≤ t.nano

instance : DecidablePred IsLeap := fun t => inferInstanceAs (Decidable (1000000000 ≤ t.nano))

/-- The nanoseconds since the epoch on the time line without leap seconds: a leap second
counts as the second before it once more. -/
def linear (t : Timestamp) : Int :=
  t.second * 1000000000 + t.nano - if 1000000000 ≤ t.nano then 1000000000 else 0

theorem linear_of_not_leap (h : ¬ t.IsLeap) : t.linear = t.second * 1000000000 + t.nano := by
  unfold IsLeap at h
  simp [linear, h]

theorem wholeSeconds_of_pos (hd : 0 < d.nanos) : d.wholeSeconds = d.nanos / 1000000000 := by
  unfold TimeDelta.wholeSeconds nanosPerSecond
  rw [Int.tdiv_eq_ediv_of_nonneg (Int.le_of_lt hd)]
  rfl

theorem subsecNanos_of_pos (hd : 0 < d.nanos) : d.subsecNanos = d.nanos % 1000000000 := by
  unfold TimeDelta.subsecNanos nanosPerSecond
  rw [Int.tmod_eq_emod_of_nonneg (Int.le_of_lt hd)]
  rfl

/-- A span of either sign is its whole seconds and the nanoseconds beyond them, which lie
within a second of zero. -/
theorem wholeSeconds_mul_add_subsecNanos (d : TimeDelta) :
    d.wholeSeconds * 1000000000 + d.subsecNanos = d.nanos ∧
      -1000000000 < d.subsecNanos ∧ d.subsecNanos < 1000000000 := by
  unfold TimeDelta.wholeSeconds TimeDelta.subsecNanos nanosPerSecond
  have h := Int.tmod_add_tdiv_mul d.nanos 1000000000
  exact ⟨by push_cast at h ⊢; omega, Int.lt_tmod_of_pos _ (by decide), Int.tmod_lt_of_pos _ (by decide)⟩

theorem ofParts?_eq_some {s : Int} {n : Nat} {o : Offset} (h : ofParts? s n o = some t) :
    t.second = s ∧ t.nano = n ∧ t.offset = o := by
  unfold ofParts? at h
  split at h
  · cases h
    exact ⟨rfl, rfl, rfl⟩
  · cases h

/-- Outside a leap second, adding a span of either sign moves the count on the time line by
the span: the second and nanosecond of the result are its quotient and remainder by a second. -/
theorem addDelta?_of_not_leap (ht : ¬ t.IsLeap) (d : TimeDelta) :
    t.addDelta? d = ofParts? ((t.linear + d.nanos) / 1000000000)
      ((t.linear + d.nanos) % 1000000000).toNat t.offset := by
  obtain ⟨hsplit, hlo, hhi⟩ := wholeSeconds_mul_add_subsecNanos d
  rw [linear_of_not_leap ht]
  unfold IsLeap at ht
  unfold addDelta?
  rw [if_neg (by simp; omega)]
  simp only [show ¬ ((t.nano : Int) ≥ 1000000000) by omega, if_false]
  -- at most one carry brings the nanoseconds back into a second
  split_ifs <;> congr 1 <;> omega

/-- A positive span moves a timestamp forward, by exactly its length on the time line without
leap seconds, and never into a leap second it was not in. -/
theorem addDelta?_of_pos (hd : 0 < d.nanos) (h : t.addDelta? d = some t') :
    t'.linear = t.linear + d.nanos ∧ (t'.IsLeap → t.IsLeap) ∧ t < t' := by
  have hw := wholeSeconds_of_pos hd
  have hs := subsecNanos_of_pos hd
  have hlt := t.nano_lt
  unfold addDelta? at h
  simp only [hw, hs] at h
  split at h
  · -- the span ends inside the leap second the timestamp is in
    rename_i hin
    obtain ⟨h1, h2, -⟩ := ofParts?_eq_some h
    simp only [Bool.and_eq_true, decide_eq_true_eq, beq_iff_eq, Bool.not_eq_true'] at hin
    refine ⟨?_, fun _ => by unfold IsLeap; omega, ?_⟩
    · unfold linear
      rw [h1, h2]
      split <;> split <;> omega
    · rw [lt_iff]
      omega
  · -- the leap second, if any, is left: whole seconds and nanoseconds are carried
    rename_i hout
    simp only [Bool.and_eq_true, decide_eq_true_eq, beq_iff_eq, Bool.not_eq_true',
      Bool.and_eq_false_iff, decide_eq_false_iff_not] at hout
    split_ifs at h
    all_goals
      obtain ⟨h1, h2, -⟩ := ofParts?_eq_some h
      simp only [linear, IsLeap, lt_iff, h1, h2]
      split_ifs <;> omega

/-- The timestamp `j` steps of `step` after `t`, if every step stays within the supported
years. -/
def advance (t : Timestamp) (step : TimeDelta) : Nat → Option Timestamp
  | 0 => some t
  | j + 1 => (t.advance step j).bind (·.addDelta? step)

@[simp] theorem advance_zero : t.advance step 0 = some t := rfl

theorem advance_succ_of_eq (h : t.advance step j = some u) : t.advance step (j + 1) = u.addDelta? step := by
  simp [advance, h]

theorem advance_succ_eq_some (h : t.advance step (j + 1) = some u) :
    ∃ v, t.advance step j = some v ∧ v.addDelta? step = some u := by
  simp only [advance, Option.bind_eq_some_iff] at h
  exact h

/-- `j` steps move a timestamp by `j` times the step on the time line without leap seconds. -/
theorem advance_linear (hd : 0 < step.nanos) :
    ∀ {j u}, t.advance step j = some u → u.linear = t.linear + j * step.nanos ∧ (u.IsLeap → t.IsLeap)
  | 0, u, h => by
    cases h
    exact ⟨by simp, id⟩
  | j + 1, u, h => by
    obtain ⟨v, hv, hu⟩ := advance_succ_eq_some h
    obtain ⟨hlin, hleap⟩ := advance_linear hd hv
    obtain ⟨hlin', hleap', -⟩ := addDelta?_of_pos hd hu
    refine ⟨?_, fun hl => hleap (hleap' hl)⟩
    rw [hlin', hlin]
    push_cast
    rw [Int.add_mul, Int.one_mul, Int.add_assoc]

/-- The timestamps of the grid grow strictly. -/
theorem advance_lt_advance (hd : 0 < step.nanos) (hij : i < j) (hi : t.advance step i = some a)
    (hj : t.advance step j = some b) : a < b := by
  induction j generalizing b with
  | zero => omega
  | succ j ih =>
    obtain ⟨v, hv, hb⟩ := advance_succ_eq_some hj
    have hvb : v < b := (addDelta?_of_pos hd hb).2.2
    rcases Nat.lt_succ_iff_lt_or_eq.1 hij with hlt | rfl
    · exact lt_trans (ih hlt hv) hvb
    · rw [hi] at hv
      cases hv
      exact hvb

/-- Outside leap seconds, the order of instants is that of the `linear` counts. -/
theorem lt_iff_linear (ha : ¬ a.IsLeap) (hb : ¬ b.IsLeap) : a < b ↔ a.linear < b.linear := by
  unfold IsLeap at ha hb
  rw [lt_iff, linear_of_not_leap ha, linear_of_not_leap hb]
  omega

/-- Outside leap seconds, the span from `b` to `a` is the difference of their `linear` counts. -/
theorem since_of_not_leap (ha : ¬ a.IsLeap) (hb : ¬ b.IsLeap) : (a.since b).nanos = a.linear - b.linear := by
  unfold IsLeap at ha hb
  have hadj : leapAdjust a b = 0 := by
    unfold leapAdjust
    simp [ha, hb]
  simp only [since, hadj, linear_of_not_leap ha, linear_of_not_leap hb]
  omega

/-- A timestamp before `stop` counts less than a second past it. -/
theorem nanoCount_lt_of_lt (h : u < stop) : u.nanoCount < stop.nanoCount + 1000000000 := by
  have := u.nano_lt
  rw [lt_iff] at h
  unfold nanoCount
  omega

/-- After `j` steps the raw count is behind by less than one second: only the step that leaves
a leap second moves it by less than the step. -/
theorem nanoCount_advance (hd : 0 < step.nanos) (h : t.advance step j = some u) :
    t.nanoCount + j * step.nanos ≤ u.nanoCount + 1000000000 := by
  have hlin := (advance_linear hd h).1
  have := t.nano_lt
  unfold linear at hlin
  unfold nanoCount
  split_ifs at hlin <;> omega

/-- The walk's bound of steps reaches past any end. -/
theorem stop_le_advance_stepBound (hd : 0 < step.nanos)
    (h : start.advance step (start.stepBound stop step) = some u) : stop ≤ u := by
  rcases lt_or_le u stop with hlt | hle
  swap
  · exact hle
  exfalso
  have hu := nanoCount_lt_of_lt hlt
  have hcount := nanoCount_advance hd h
  -- the bound is at least one more than the number of whole steps in the distance plus two seconds
  set D := stop.nanoCount - start.nanoCount + 2000000000 with hD
  have hq := Int.lt_ediv_add_one_mul_self D hd
  have hN : D / step.nanos + 1 ≤ ((start.stepBound stop step : Nat) : Int) := by
    unfold stepBound
    rw [← hD]
    push_cast
    have := Int.self_le_toNat (D / step.nanos)
    omega
  have hmul : (D / step.nanos + 1) * step.nanos ≤ ((start.stepBound stop step : Nat) : Int) * step.nanos :=
    Int.mul_le_mul_of_nonneg_right hN (Int.le_of_lt hd)
  omega

end Timestamp

end FrameCache
