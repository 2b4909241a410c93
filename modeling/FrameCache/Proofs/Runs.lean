import Mathlib
import FrameCache.Link.Basic

/-!
# Runs of equal keys

`foldRuns` cuts a list into runs: each element joins the latest run or opens a new one. Grouping
rows by link, bucketing samples and dropping repeated instants or texts are all such folds over
a list sorted by a key, where an element joins the latest run exactly when it has the run's key
(`KeyedRuns`).

Over a sorted list the runs are then the key classes (`foldRuns_sorted`): one run per key of the
list, in increasing order of key, and the run of a key is the fold, in list order, of the
elements with that key. The proof carries `RunsInv` through the fold: one element either extends
the latest run, whose key is the greatest so far, or opens a run of a key greater than all
before it (`RunsInv.push`).
-/

namespace FrameCache

variable {α β κ : Type} [LinearOrder κ]

/-- A run fold keyed by `key` on elements and `keyOf` on runs: an element joins the latest run
exactly when it has the run's key, and neither joining nor opening changes the key. -/
structure KeyedRuns (key : α → κ) (keyOf : β → κ) (joins : β → α → Bool) (extend : β → α → β)
    (start : α → β) : Prop where
  joins_iff : ∀ g x, joins g x = true ↔ keyOf g = key x
  key_extend : ∀ g x, keyOf (extend g x) = keyOf g
  key_start : ∀ x, keyOf (start x) = key x

section Runs

variable {key : α → κ} {keyOf : β → κ} {joins : β → α → Bool} {extend : β → α → β} {start : α → β}

/-- The run of key `k` in the runs of `xs`: the elements of `xs` with that key, folded in order. -/
def FoldsClass (key : α → κ) (extend : β → α → β) (start : α → β) (xs : List α) (k : κ) (g : β) :
    Prop :=
  ∃ x₀ rest, xs.filter (fun x => key x = k) = x₀ :: rest ∧ g = rest.foldl extend (start x₀)

/-- What the runs of a prefix of a sorted list hold, latest first: their keys decrease
strictly, they are the keys of the prefix, and each run folds its key's class. -/
structure RunsInv (key : α → κ) (keyOf : β → κ) (extend : β → α → β) (start : α → β)
    (xs : List α) (runs : List β) : Prop where
  decreasing : (runs.map keyOf).Pairwise (· > ·)
  keys : ∀ k, k ∈ runs.map keyOf ↔ ∃ x ∈ xs, key x = k
  folds : ∀ g ∈ runs, FoldsClass key extend start xs (keyOf g) g

theorem filter_append_singleton_of_ne {xs : List α} {x : α} {k : κ} (h : key x ≠ k) :
    (xs ++ [x]).filter (fun y => key y = k) = xs.filter (fun y => key y = k) := by
  simp [List.filter_append, h]

theorem filter_append_singleton_self (xs : List α) (x : α) :
    (xs ++ [x]).filter (fun y => key y = key x) = xs.filter (fun y => key y = key x) ++ [x] := by
  simp [List.filter_append]

/-- An element of another key leaves a run's class as it was. -/
theorem FoldsClass.append_of_ne {xs : List α} {x : α} {k : κ} {g : β}
    (h : FoldsClass key extend start xs k g) (hk : key x ≠ k) :
    FoldsClass key extend start (xs ++ [x]) k g := by
  obtain ⟨x₀, rest, hfilter, hg⟩ := h
  exact ⟨x₀, rest, (filter_append_singleton_of_ne hk).trans hfilter, hg⟩

theorem runsInv_nil : RunsInv key keyOf extend start [] [] where
  decreasing := List.Pairwise.nil
  keys _ := by simp
  folds _ hg := absurd hg List.not_mem_nil

variable (hk : KeyedRuns key keyOf joins extend start)
include hk

/-- An element that joins the latest run extends that run's class and leaves the others. -/
theorem RunsInv.join {xs : List α} {x : α} {g : β} {gs : List β}
    (h : RunsInv key keyOf extend start xs (g :: gs)) (hj : keyOf g = key x) :
    RunsInv key keyOf extend start (xs ++ [x]) (extend g x :: gs) := by
  have hmap : (extend g x :: gs).map keyOf = (g :: gs).map keyOf := by
    simp [hk.key_extend]
  refine ⟨hmap ▸ h.decreasing, fun k => ?_, fun g' hg' => ?_⟩
  · rw [hmap, h.keys]
    constructor
    · rintro ⟨y, hy, rfl⟩
      exact ⟨y, List.mem_append_left _ hy, rfl⟩
    · rintro ⟨y, hy, rfl⟩
      rcases List.mem_append.1 hy with hy | hy
      · exact ⟨y, hy, rfl⟩
      · obtain rfl := List.mem_singleton.1 hy
        exact (h.keys _).1 (hj ▸ List.mem_map_of_mem List.mem_cons_self)
  rcases List.mem_cons.1 hg' with rfl | hg'
  · -- the extended run's class gains the element at its end
    obtain ⟨x₀, rest, hfilter, rfl⟩ := h.folds g List.mem_cons_self
    refine ⟨x₀, rest ++ [x], ?_, by simp⟩
    rw [hk.key_extend, hj, filter_append_singleton_self, ← hj, hfilter, List.cons_append]
  · -- every other run has a smaller key
    have hlt : keyOf g' < key x :=
      hj ▸ (List.pairwise_cons.1 h.decreasing).1 _ (List.mem_map_of_mem hg')
    exact (h.folds g' (List.mem_cons_of_mem _ hg')).append_of_ne (ne_of_gt hlt)

/-- An element of a key greater than every key so far opens a run of its own. -/
theorem RunsInv.open {xs : List α} {x : α} {runs : List β}
    (h : RunsInv key keyOf extend start xs runs) (hgt : ∀ k ∈ runs.map keyOf, k < key x) :
    RunsInv key keyOf extend start (xs ++ [x]) (start x :: runs) := by
  have hnew : ∀ y ∈ xs, key y ≠ key x := fun y hy hyx =>
    lt_irrefl _ (hgt _ ((h.keys _).2 ⟨y, hy, hyx⟩))
  refine ⟨?_, fun k => ?_, fun g' hg' => ?_⟩
  · rw [List.map_cons, hk.key_start, List.pairwise_cons]
    exact ⟨hgt, h.decreasing⟩
  · rw [List.map_cons, hk.key_start, List.mem_cons, h.keys]
    constructor
    · rintro (rfl | ⟨y, hy, rfl⟩)
      · exact ⟨x, List.mem_append_right _ (List.mem_singleton_self x), rfl⟩
      · exact ⟨y, List.mem_append_left _ hy, rfl⟩
    · rintro ⟨y, hy, rfl⟩
      rcases List.mem_append.1 hy with hy | hy
      · exact .inr ⟨y, hy, rfl⟩
      · exact .inl (by rw [List.mem_singleton.1 hy])
  rcases List.mem_cons.1 hg' with rfl | hg'
  · -- the new run's class is the element alone
    refine ⟨x, [], ?_, rfl⟩
    rw [hk.key_start, filter_append_singleton_self, List.filter_eq_nil_iff.2]
    · rfl
    · intro y hy
      simpa using hnew y hy
  · exact (h.folds g' hg').append_of_ne (ne_of_gt (hgt _ (List.mem_map_of_mem hg')))

/-- One element at or above every key so far keeps the invariant. -/
theorem RunsInv.push {xs : List α} {x : α} {runs : List β}
    (h : RunsInv key keyOf extend start xs runs) (hle : ∀ y ∈ xs, key y ≤ key x) :
    RunsInv key keyOf extend start (xs ++ [x]) (pushRun joins extend start runs x) := by
  cases runs with
  | nil =>
    exact h.open hk (by simp)
  | cons g gs =>
    simp only [pushRun]
    split
    · rename_i hj
      exact h.join hk ((hk.joins_iff g x).1 hj)
    · rename_i hj
      -- the latest run's key is one of the prefix, so at most the element's, and not equal
      obtain ⟨y, hy, hyg⟩ := (h.keys (keyOf g)).1 List.mem_cons_self
      have hlt : keyOf g < key x :=
        lt_of_le_of_ne (hyg ▸ hle y hy) (fun he => hj ((hk.joins_iff g x).2 he))
      refine h.open hk fun k hk' => ?_
      rcases List.mem_cons.1 hk' with rfl | hk'
      · exact hlt
      · exact lt_trans ((List.pairwise_cons.1 h.decreasing).1 _ hk') hlt

/-- The runs of every list sorted by key keep the invariant. -/
theorem runsInv_foldRuns {xs : List α} (hs : xs.Pairwise fun a b => key a ≤ key b) :
    RunsInv key keyOf extend start xs (foldRuns joins extend start xs) := by
  induction xs using List.reverseRecOn with
  | nil => exact runsInv_nil
  | append_singleton xs x ih =>
    rw [List.pairwise_append] at hs
    rw [foldRuns, List.foldl_append, List.foldl_cons, List.foldl_nil]
    exact (ih hs.1).push hk fun y hy => hs.2.2 y hy x (List.mem_singleton_self x)

/-- Over a list sorted by key, the runs in order are the key classes: their keys increase
strictly and are the keys of the list, and the run of each key folds, in list order, the
elements with that key. -/
theorem foldRuns_sorted {xs : List α} (hs : xs.Pairwise fun a b => key a ≤ key b) :
    ((foldRuns joins extend start xs).reverse.map keyOf).Pairwise (· < ·) ∧
      (∀ k, k ∈ (foldRuns joins extend start xs).reverse.map keyOf ↔ ∃ x ∈ xs, key x = k) ∧
      ∀ g ∈ (foldRuns joins extend start xs).reverse, FoldsClass key extend start xs (keyOf g) g := by
  have h := runsInv_foldRuns hk hs
  refine ⟨?_, fun k => ?_, fun g hg => h.folds g (List.mem_reverse.1 hg)⟩
  · rw [List.map_reverse, List.pairwise_reverse]
    exact h.decreasing
  · rw [List.map_reverse, List.mem_reverse]
    exact h.keys k

end Runs

end FrameCache
