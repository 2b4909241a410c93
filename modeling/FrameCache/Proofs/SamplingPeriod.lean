import Mathlib
import FrameCache.Proofs.Runs
import FrameCache.Proofs.Listing

/-!
# Sampling periods

The sampling of an index is read from its distinct instants in time order (`distinctInstants`):
the first timestamp of each instant once the index is sorted stably. They are members of the
index, they increase strictly, and every instant of the index is among them
(`distinctInstants_spec`). An index that holds exactly the points of a strictly increasing grid,
each any number of times, has the grid itself as its distinct instants
(`distinctInstants_eq_of_mem_iff`).

The least and the greatest gap are running choices over the gaps (`foldl_choice`): each is a gap,
and it lies below, or above, all of them. So `samplingPeriod` fails only for gaps of different
lengths, and names the least and the greatest (`samplingPeriod_eq_error`); gaps all of one length
are the period, and there is none with fewer than two distinct instants
(`samplingPeriod_of_uniform`).
-/

namespace FrameCache

theorem TimeDelta.eq_of_nanos_eq {a b : TimeDelta} (h : a.nanos = b.nanos) : a = b := by
  cases a
  cases b
  simp only at h
  subst h
  rfl

section Choice

variable {α : Type} {R : α → α → Prop} {pick : Option α → α → Option α}

/-- A running choice over a list, whose every step keeps the choice so far or takes the new
element and is related to both, ends with the start or a member of the list, related to the
start and to every member. -/
theorem foldl_choice (htrans : ∀ a b c, R a b → R b c → R a c) (hrefl : ∀ a, R a a)
    (hpick : ∀ m d, ∃ x, pick m d = some x ∧ (x = d ∨ m = some x) ∧ R x d ∧ ∀ e, m = some e → R x e) :
    ∀ (ds : List α) (m : Option α) (a : α), ds.foldl pick m = some a →
      (m = some a ∨ a ∈ ds) ∧ (∀ e, m = some e → R a e) ∧ ∀ d ∈ ds, R a d
  | [], m, a, h => by
    refine ⟨.inl h, fun e he => ?_, fun _ hd => absurd hd List.not_mem_nil⟩
    rw [List.foldl_nil, he, Option.some.injEq] at h
    rw [h]
    exact hrefl a
  | d :: ds, m, a, h => by
    obtain ⟨x, hx, hxd, hRd, hRe⟩ := hpick m d
    rw [List.foldl_cons, hx] at h
    obtain ⟨hmem, hRx, hRds⟩ := foldl_choice htrans hrefl hpick ds (some x) a h
    have hax : R a x := hRx x rfl
    refine ⟨?_, fun e he => htrans _ _ _ hax (hRe e he), fun d' hd' => ?_⟩
    · rcases hmem with hxa | ha
      · rw [Option.some.injEq] at hxa
        subst hxa
        rcases hxd with rfl | hm
        · exact .inr List.mem_cons_self
        · exact .inl hm
      · exact .inr (List.mem_cons_of_mem d ha)
    · rcases List.mem_cons.1 hd' with rfl | hd'
      · exact htrans _ _ _ hax hRd
      · exact hRds d' hd'

/-- A running choice that always chooses has chosen once the list is not empty. -/
theorem foldl_choice_eq_none (hpick : ∀ m d, ∃ x, pick m d = some x) :
    ∀ (ds : List α) (m : Option α), ds.foldl pick m = none → m = none ∧ ds = []
  | [], _, h => ⟨h, rfl⟩
  | d :: ds, m, h => by
    obtain ⟨x, hx⟩ := hpick m d
    rw [List.foldl_cons, hx] at h
    cases (foldl_choice_eq_none hpick ds (some x) h).1

end Choice

section Extremes

variable {ds : List TimeDelta} {a : TimeDelta}

/-- The least delta is one of the deltas, at most every one of them. -/
theorem leastDelta_spec (h : leastDelta ds = some a) : a ∈ ds ∧ ∀ d ∈ ds, a.nanos ≤ d.nanos := by
  have hfold := foldl_choice (R := fun a b : TimeDelta => a.nanos ≤ b.nanos)
    (fun _ _ _ => Int.le_trans) (fun _ => Int.le_refl _) ?pick ds none a h
  · exact ⟨hfold.1.resolve_left (by simp), hfold.2.2⟩
  case pick =>
    -- each step keeps the smaller of the choice so far and the next delta
    intro m d
    cases m with
    | none => exact ⟨d, rfl, .inl rfl, le_refl _, fun _ he => by cases he⟩
    | some e =>
      by_cases hde : d < e
      · exact ⟨d, by simp [hde], .inl rfl, le_refl _, fun e' he => by cases he; exact le_of_lt hde⟩
      · have hed : e.nanos ≤ d.nanos := Int.not_lt.1 hde
        exact ⟨e, by simp [hde], .inr rfl, hed, fun e' he => by cases he; exact le_refl _⟩

/-- The greatest delta is one of the deltas, at least every one of them. -/
theorem greatestDelta_spec (h : greatestDelta ds = some a) : a ∈ ds ∧ ∀ d ∈ ds, d.nanos ≤ a.nanos := by
  have hfold := foldl_choice (R := fun a b : TimeDelta => b.nanos ≤ a.nanos)
    (fun _ _ _ h₁ h₂ => Int.le_trans h₂ h₁) (fun _ => Int.le_refl _) ?pick ds none a h
  · exact ⟨hfold.1.resolve_left (by simp), hfold.2.2⟩
  case pick =>
    -- each step keeps the larger of the choice so far and the next delta
    intro m d
    cases m with
    | none => exact ⟨d, rfl, .inl rfl, le_refl _, fun _ he => by cases he⟩
    | some e =>
      by_cases hed : e < d
      · exact ⟨d, by simp [hed], .inl rfl, le_refl _, fun e' he => by cases he; exact le_of_lt hed⟩
      · have hde : d.nanos ≤ e.nanos := Int.not_lt.1 hed
        exact ⟨e, by simp [hed], .inr rfl, hde, fun e' he => by cases he; exact le_refl _⟩

theorem leastDelta_eq_none (h : leastDelta ds = none) : ds = [] :=
  (foldl_choice_eq_none (fun _ _ => ⟨_, rfl⟩) ds none h).2

theorem greatestDelta_eq_none (h : greatestDelta ds = none) : ds = [] :=
  (foldl_choice_eq_none (fun _ _ => ⟨_, rfl⟩) ds none h).2

end Extremes

section Sampling

variable {index : List Timestamp}

/-- Sampling fails only when the gaps differ: it names the least gap, which is the resolution,
and the greatest, which is longer. -/
theorem samplingPeriod_eq_error {e : CacheError} (h : samplingPeriod index = .error e) :
    ∃ lo hi, e = .nonUniformSampling lo hi ∧ minResolution index = some lo ∧
      greatestDelta (gaps index) = some hi ∧ lo.nanos < hi.nanos := by
  unfold samplingPeriod at h
  dsimp only at h
  split at h
  · rename_i lo hi hlo hhi
    split at h
    · cases h
    · rename_i hne
      cases h
      have hle := (leastDelta_spec hlo).2 hi (greatestDelta_spec hhi).1
      exact ⟨lo, hi, rfl, hlo, hhi, lt_of_le_of_ne hle hne⟩
  · cases h

/-- Sampling that is not uniform has two different gaps, so three distinct instants or more. -/
theorem exists_three_instants {e : CacheError} (h : samplingPeriod index = .error e) :
    ∃ t₁ t₂ t₃ rest, distinctInstants index = t₁ :: t₂ :: t₃ :: rest := by
  obtain ⟨lo', hi', -, hmin, hmax, hlt⟩ := samplingPeriod_eq_error h
  have hlo := (leastDelta_spec hmin).1
  have hhi := (greatestDelta_spec hmax).1
  have hgaps : gaps index = ((distinctInstants index).zip (distinctInstants index).tail).map
      fun p => p.2.since p.1 := rfl
  rw [hgaps] at hlo hhi
  match hts : distinctInstants index with
  | [] => rw [hts] at hlo; cases hlo
  | [_] => rw [hts] at hlo; cases hlo
  | [_, _] =>
    -- one gap only: the least and the greatest are the same
    rw [hts] at hlo hhi
    simp only [List.tail_cons, List.zip_cons_cons, List.zip_nil_right, List.map_cons, List.map_nil,
      List.mem_singleton] at hlo hhi
    rw [hlo, hhi] at hlt
    exact absurd hlt (lt_irrefl _)
  | t₁ :: t₂ :: t₃ :: rest => exact ⟨t₁, t₂, t₃, rest, rfl⟩

/-- Gaps all of one length are the sampling period; with no gap there is none. -/
theorem samplingPeriod_of_uniform {r : TimeDelta} (h : ∀ d ∈ gaps index, d.nanos = r.nanos) :
    samplingPeriod index = .ok (if gaps index = [] then none else some r) := by
  unfold samplingPeriod
  dsimp only
  by_cases hg : gaps index = []
  · simp only [hg, if_true]
    rfl
  · rw [if_neg hg]
    cases hlo : leastDelta (gaps index) with
    | none => exact absurd (leastDelta_eq_none hlo) hg
    | some lo =>
      cases hhi : greatestDelta (gaps index) with
      | none => exact absurd (greatestDelta_eq_none hhi) hg
      | some hi =>
        have hlo' := h lo (leastDelta_spec hlo).1
        have hhi' := h hi (greatestDelta_spec hhi).1
        simp only [hhi', if_true, TimeDelta.eq_of_nanos_eq hlo']

end Sampling

namespace Timestamp

variable {a b : Timestamp}

/-- The instant of a timestamp as a point of a linear order: by second, then by nanosecond. -/
def instantKey (t : Timestamp) : Lex (Int × Nat) := toLex (t.second, t.nano)

theorem instantKey_le_iff : a.instantKey ≤ b.instantKey ↔ a ≤ b := by
  simp [instantKey, Prod.Lex.toLex_le_toLex, le_iff]

theorem instantKey_lt_iff : a.instantKey < b.instantKey ↔ a < b := by
  simp [instantKey, Prod.Lex.toLex_lt_toLex, lt_iff]

theorem instantKey_eq_iff : a.instantKey = b.instantKey ↔ a.sameInstant b = true := by
  simp [instantKey, sameInstant, instant]

end Timestamp

section Distinct

/-- Keeping the first timestamp of each instant is a run fold keyed by the instant. -/
theorem keyedRuns_instants :
    KeyedRuns Timestamp.instantKey Timestamp.instantKey (fun u t => u.sameInstant t) (fun u _ => u) id where
  joins_iff _ _ := Timestamp.instantKey_eq_iff.symm
  key_extend _ _ := rfl
  key_start _ := rfl

theorem foldl_keep_first {α : Type} (x : α) (rest : List α) : rest.foldl (fun u _ => u) x = x := by
  induction rest with
  | nil => rfl
  | cons _ _ ih => exact ih

/-- The distinct instants of an index increase strictly, are members of the index, and hold every
instant of it. -/
theorem distinctInstants_spec (index : List Timestamp) :
    (distinctInstants index).Pairwise (· < ·) ∧ (∀ t ∈ distinctInstants index, t ∈ index) ∧
      ∀ t ∈ index, ∃ u ∈ distinctInstants index, u.sameInstant t = true := by
  set sorted := index.mergeSort fun a b => decide (a ≤ b)
  have hsorted : sorted.Pairwise fun a b => a.instantKey ≤ b.instantKey := by
    refine (List.pairwise_mergeSort (fun a b c hab hbc => ?_) (fun a b => ?_) index).imp fun h => ?_
    · simp only [decide_eq_true_eq] at hab hbc ⊢
      exact le_trans hab hbc
    · simpa using Timestamp.le_total a b
    · exact Timestamp.instantKey_le_iff.2 (of_decide_eq_true h)
  obtain ⟨hinc, hkeys, hfolds⟩ := foldRuns_sorted keyedRuns_instants hsorted
  change (List.map Timestamp.instantKey (distinctInstants index)).Pairwise (· < ·) at hinc
  change ∀ k, k ∈ (distinctInstants index).map Timestamp.instantKey ↔ _ at hkeys
  change ∀ g ∈ distinctInstants index, _ at hfolds
  refine ⟨List.pairwise_map.1 hinc |>.imp Timestamp.instantKey_lt_iff.1, fun t ht => ?_, fun t ht => ?_⟩
  · -- each distinct instant is the first timestamp of its instant in the sorted index
    obtain ⟨x₀, rest, hfilter, hx⟩ := hfolds t ht
    rw [foldl_keep_first] at hx
    have hx₀ : x₀ ∈ sorted := List.mem_of_mem_filter (hfilter ▸ List.mem_cons_self)
    exact hx ▸ List.mem_mergeSort.1 hx₀
  · obtain ⟨u, hu, hut⟩ := List.mem_map.1 ((hkeys t.instantKey).2 ⟨t, List.mem_mergeSort.2 ht, rfl⟩)
    exact ⟨u, hu, Timestamp.instantKey_eq_iff.1 hut⟩

/-- Two points of a strictly increasing list at one instant are one point. -/
theorem eq_of_sameInstant_of_pairwise {grid : List Timestamp} (hgrid : grid.Pairwise (· < ·))
    {a b : Timestamp} (ha : a ∈ grid) (hb : b ∈ grid) (hab : a.sameInstant b = true) : a = b := by
  have hkeys : (grid.map Timestamp.instantKey).Nodup :=
    (List.pairwise_map.2 (hgrid.imp Timestamp.instantKey_lt_iff.2)).nodup
  exact List.inj_on_of_nodup_map hkeys ha hb (Timestamp.instantKey_eq_iff.2 hab)

/-- An index that holds exactly the points of a strictly increasing grid has the grid as its
distinct instants. -/
theorem distinctInstants_eq_of_mem_iff {index grid : List Timestamp} (hgrid : grid.Pairwise (· < ·))
    (hmem : ∀ t, t ∈ index ↔ t ∈ grid) : distinctInstants index = grid := by
  obtain ⟨hinc, hsub, hcover⟩ := distinctInstants_spec index
  refine List.Pairwise.eq_of_mem_iff hinc hgrid fun t => ⟨fun ht => (hmem t).1 (hsub t ht), fun ht => ?_⟩
  obtain ⟨u, hu, hut⟩ := hcover t ((hmem t).2 ht)
  rwa [← eq_of_sameInstant_of_pairwise hgrid ((hmem u).1 (hsub u hu)) ht hut]

end Distinct

end FrameCache
