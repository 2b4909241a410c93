import Mathlib
import FrameCache.Frame.Concat

/-!
# Joining frames and counting their rows

Frames of one schema, the same column names and kinds in the same order, always join:
`Frame.concat` puts their indexes one after another (`Frame.concat_of_schema`). Selecting the
rows of a range that holds every row keeps them all, and sorting by time keeps their number,
so the rows a read returns can be counted frame by frame.

The first section holds the facts about traversals in `Except` that the rest uses: a
traversal succeeds with the list of the results of its steps (`mapM_eq_ok_iff`), and a sum
checked against a bound at every step fails exactly when the whole sum passes the bound
(`foldlM_add_le`).
-/

namespace FrameCache

section Traversal

variable {ε α β : Type}

theorem Except.bind_eq_ok {γ : Type} {x : Except ε α} {f : α → Except ε γ} {b : γ} :
    (x >>= f) = .ok b ↔ ∃ a, x = .ok a ∧ f a = .ok b := by
  cases x <;> simp [bind, Except.bind]

theorem Except.map_fst_eq_ok_iff {x : Except ε (α × β)} {a : α} :
    x.map Prod.fst = .ok a ↔ ∃ b, x = .ok (a, b) := by
  cases x with
  | error e => simp [Except.map]
  | ok r => simp [Except.map, Prod.ext_iff, eq_comm]

/-- A traversal succeeds exactly when each step does, with the list of their results. -/
theorem mapM_eq_ok_iff {g : α → Except ε β} {xs : List α} {ys : List β} :
    xs.mapM g = .ok ys ↔ List.Forall₂ (fun x y => g x = .ok y) xs ys := by
  induction xs generalizing ys with
  | nil => cases ys <;> simp [pure, Except.pure, List.forall₂_nil_left_iff]
  | cons x xs ih =>
    cases ys with
    | nil => simp [List.mapM_cons, Except.bind_eq_ok, pure, Except.pure, List.forall₂_nil_right_iff]
    | cons y ys => simp [List.mapM_cons, Except.bind_eq_ok, pure, Except.pure, ← ih]

theorem mapM_eq_ok_map {g : α → Except ε β} {k : α → β} {xs : List α}
    (h : ∀ x ∈ xs, g x = .ok (k x)) : xs.mapM g = .ok (xs.map k) :=
  mapM_eq_ok_iff.2 (List.forall₂_map_right_iff.2 (List.forall₂_same.2 h))

theorem mapM_ok_of_forall {g : α → Except ε β} {R : α → β → Prop} {xs : List α}
    (h : ∀ x ∈ xs, ∃ y, g x = .ok y ∧ R x y) : ∃ ys, xs.mapM g = .ok ys ∧ List.Forall₂ R xs ys := by
  induction xs with
  | nil => exact ⟨[], rfl, .nil⟩
  | cons x xs ih =>
    obtain ⟨y, hy, hr⟩ := h x List.mem_cons_self
    obtain ⟨ys, hys, hall⟩ := ih fun x hx => h x (List.mem_cons_of_mem _ hx)
    refine ⟨y :: ys, ?_, .cons hr hall⟩
    rw [List.mapM_cons, hy, hys]
    rfl

/-- A traversal whose every step succeeds, followed by a pure step, succeeds; stated so that
it applies to a `do` block as it is written. -/
theorem exists_mapM_bind_pure {γ : Type} {L : α → Except ε β} {xs : List α} {k : List β → γ}
    {Q : γ → Prop} (R : α → β → Prop) (h : ∀ x ∈ xs, ∃ y, L x = .ok y ∧ R x y)
    (hk : ∀ ys, List.Forall₂ R xs ys → Q (k ys)) :
    ∃ F, (xs.mapM L >>= fun ys => pure (k ys)) = .ok F ∧ Q F := by
  obtain ⟨ys, hys, hall⟩ := mapM_ok_of_forall h
  exact ⟨k ys, by rw [hys]; rfl, hk ys hall⟩

/-- Adding up numbers with a check against a bound after every addition fails exactly when
the whole sum passes the bound, since the partial sums only grow. -/
theorem foldlM_add_le (g : α → Nat) (B : Nat) (e : ε) (xs : List α) {a : Nat} (ha : a ≤ B) :
    xs.foldlM (fun n x => if n + g x > B then Except.error e else .ok (n + g x)) a =
      if a + (xs.map g).sum > B then .error e else .ok (a + (xs.map g).sum) := by
  induction xs generalizing a with
  | nil => simp [Nat.not_lt.2 ha, pure, Except.pure]
  | cons x xs ih =>
    rw [List.foldlM_cons]
    by_cases hx : a + g x > B
    · simp [hx, bind, Except.bind]
      omega
    · rw [if_neg hx]
      show xs.foldlM _ (a + g x) = _
      rw [ih (Nat.not_lt.1 hx), List.map_cons, List.sum_cons, Nat.add_assoc]

theorem sum_map_filter_of_eq_zero {q : α → Bool} {g : α → Nat} {l : List α}
    (h : ∀ x ∈ l, q x = false → g x = 0) : ((l.filter q).map g).sum = (l.map g).sum := by
  induction l with
  | nil => rfl
  | cons x l ih =>
    have ih' := ih fun y hy => h y (List.mem_cons_of_mem _ hy)
    cases hq : q x
    · simp [hq, ih', h x List.mem_cons_self hq]
    · simp [hq, ih']

end Traversal

namespace Column

theorem append?_of_kind {c d : Column} (h : d.kind = c.kind) :
    ∃ e, c.append? d = some e ∧ e.kind = c.kind := by
  cases c <;> cases d <;> simp_all [kind, append?]

end Column

namespace Frame

/-- The names and kinds of a frame's columns, in order. -/
def schema (f : Frame) : List (String × ColumnKind) := f.columns.map fun m => (m.1, m.2.kind)

theorem index_insertColumn {f g : Frame} {name : String} {c : Column}
    (h : f.insertColumn name c = .ok g) : g.index = f.index := by
  unfold insertColumn at h
  split at h
  · cases h
  · split at h <;> (cases h; rfl)

theorem index_foldlM_insertColumn {f : Frame} :
    ∀ (cols : List (String × Column)) (g : Frame),
      cols.foldlM (fun f (n, c) => f.insertColumn n c) g = .ok f → f.index = g.index := by
  intro cols
  induction cols with
  | nil =>
    intro g hg
    cases hg
    rfl
  | cons m cols ih =>
    intro g hg
    rw [List.foldlM_cons, Except.bind_eq_ok] at hg
    obtain ⟨g', hins, hrest⟩ := hg
    rw [ih g' hrest, index_insertColumn hins]

/-- Adding columns leaves the index as it was. -/
theorem index_ofParts {name : String} {idx : Array Timestamp} {cols : List (String × Column)}
    {f : Frame} (h : ofParts name idx cols = .ok f) : f.index = idx :=
  index_foldlM_insertColumn cols _ h

theorem schema_eq_of_mem_zip {cs ds : List (String × Column)}
    (h : ds.map (fun m => (m.1, m.2.kind)) = cs.map (fun m => (m.1, m.2.kind)))
    {x : (String × Column) × (String × Column)} (hx : x ∈ cs.zip ds) :
    x.2.1 = x.1.1 ∧ x.2.2.kind = x.1.2.kind := by
  induction cs generalizing ds with
  | nil => simp at hx
  | cons c cs ih =>
    cases ds with
    | nil => simp at hx
    | cons d ds =>
      simp only [List.map_cons, List.cons.injEq, Prod.mk.injEq] at h
      rcases List.mem_cons.1 hx with rfl | hx
      · exact ⟨h.1.1, h.1.2⟩
      · exact ih h.2 hx

/-- Two frames of one schema join, the rows of the second after those of the first. -/
theorem append_of_schema {f g : Frame} (h : g.schema = f.schema) :
    ∃ F, f.append g = .ok F ∧ F.index = f.index ++ g.index ∧ F.schema = f.schema := by
  have hlen : g.columns.length = f.columns.length := by
    simpa [schema] using congrArg List.length h
  unfold append
  simp only [hlen, ne_eq, not_true_eq_false, if_false]
  -- column by column, the names agree and the kinds join
  refine exists_mapM_bind_pure (fun x y => y.1 = x.1.1 ∧ y.2.kind = x.1.2.kind) ?_ ?_
  · intro x hx
    obtain ⟨hn, hk⟩ := schema_eq_of_mem_zip h hx
    obtain ⟨e, he, hek⟩ := Column.append?_of_kind hk
    exact ⟨(x.1.1, e), by simp [hn, he, pure, Except.pure], rfl, hek⟩
  · intro es hall
    refine ⟨rfl, ?_⟩
    have heq : List.Forall₂ (· = ·) ((f.columns.zip g.columns).map fun x => (x.1.1, x.1.2.kind))
        (es.map fun m => (m.1, m.2.kind)) := by
      rw [List.forall₂_map_left_iff, List.forall₂_map_right_iff]
      exact hall.imp fun x y hxy => by rw [hxy.1, hxy.2]
    rw [List.forall₂_eq_eq_eq] at heq
    rw [schema, ← heq, schema,
      show (fun x : (String × Column) × (String × Column) => (x.1.1, x.1.2.kind)) =
        (fun m => (m.1, m.2.kind)) ∘ Prod.fst from rfl, ← List.map_map, List.map_fst_zip (by omega)]

theorem foldlM_append_of_schema {fs : List Frame} :
    ∀ f : Frame, (∀ g ∈ fs, g.schema = f.schema) → ∃ F, fs.foldlM append f = .ok F ∧
      F.index.toList = f.index.toList ++ fs.flatMap (·.index.toList) ∧ F.schema = f.schema := by
  induction fs with
  | nil => intro f _; exact ⟨f, rfl, by simp, rfl⟩
  | cons g fs ih =>
    intro f h
    obtain ⟨F₁, h₁, hi₁, hs₁⟩ := append_of_schema (h g List.mem_cons_self)
    obtain ⟨F, hF, hi, hs⟩ := ih F₁ fun g' hg' => by
      rw [hs₁]
      exact h g' (List.mem_cons_of_mem _ hg')
    refine ⟨F, ?_, ?_, hs.trans hs₁⟩
    · rw [List.foldlM_cons, h₁]
      exact hF
    · rw [hi, hi₁]
      simp

/-- Frames of one schema join into one frame holding all their rows in order. -/
theorem concat_of_schema {f : Frame} {fs : List Frame} (h : ∀ g ∈ fs, g.schema = f.schema) :
    ∃ F, concat (f :: fs) = .ok (some F) ∧ F.index.toList = (f :: fs).flatMap (·.index.toList) := by
  obtain ⟨F, hF, hi, -⟩ := foldlM_append_of_schema f h
  refine ⟨F, ?_, by rw [hi]; simp⟩
  simp [concat, hF, Functor.map, Except.map]

theorem size_takeRows (f : Frame) (rows : List Nat) : (f.takeRows rows).size = rows.length := by
  simp [takeRows, size]

/-- A range that holds every row selects them all. -/
theorem size_filterRange_of_within {f : Frame} {s e : Timestamp} (h : ∀ t ∈ f.index, s ≤ t ∧ t ≤ e) :
    (f.filterRange s e).size = f.size := by
  rw [filterRange, size_takeRows, List.filter_eq_self.2, List.length_range]
  intro i hi
  rw [List.mem_range] at hi
  have ht := h f.index[i] (Array.getElem_mem hi)
  simp [Array.getElem?_eq_getElem hi, ht.1, ht.2]

theorem size_sortByIndex (f : Frame) : f.sortByIndex.size = f.size := by
  unfold sortByIndex
  split
  · rfl
  · rw [size_takeRows, sortedRows, List.length_mergeSort, List.length_range]

theorem isEmpty_iff {f : Frame} : f.isEmpty = true ↔ f.size = 0 := by
  simp [isEmpty, size]

end Frame

end FrameCache
