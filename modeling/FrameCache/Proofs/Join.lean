import Mathlib
import FrameCache.Proofs.FrameRows

/-!
# Joining frames, exactly

`Frame.concat` is decided by the schemas of the frames alone. It gives no frame for no frames.
It reports a schema mismatch exactly when some later frame differs from the first in the number
of its columns, or in the name or kind of a column at some position (`Frame.SchemaDiffers`).
Otherwise it gives one frame, under the first frame's index name and schema, whose index and whose
every column are those of all the frames one after another (`Frame.concat_exact`).

Nothing here asks the frames to be well formed: a join appends columns as they are, whatever
their lengths. Entries are compared as `Cell`s, so doubles are compared by their bits.
-/

namespace FrameCache

section Traversal

variable {ε α β : Type}

/-- A traversal that fails, fails with the error of one of its steps. -/
theorem mapM_eq_error {g : α → Except ε β} {xs : List α} {e : ε} (h : xs.mapM g = .error e) :
    ∃ x ∈ xs, g x = .error e := by
  induction xs with
  | nil => cases h
  | cons x xs ih =>
    rw [List.mapM_cons] at h
    cases hx : g x with
    | error e' =>
      rw [hx] at h
      cases h
      exact ⟨x, List.mem_cons_self, hx⟩
    | ok y =>
      cases hxs : xs.mapM g with
      | error e' =>
        rw [hx, hxs] at h
        cases h
        obtain ⟨x', hx', hg⟩ := ih hxs
        exact ⟨x', List.mem_cons_of_mem _ hx', hg⟩
      | ok ys =>
        rw [hx, hxs] at h
        cases h

theorem Except.bind_eq_error {γ : Type} {x : Except ε α} {k : α → Except ε γ} {e : ε} :
    (x >>= k) = .error e ↔ x = .error e ∨ ∃ a, x = .ok a ∧ k a = .error e := by
  cases x <;> simp [bind, Except.bind]

end Traversal

namespace Column

/-- The entries of a column, in order. -/
def cells : Column → List Cell
  | .float vs => vs.toList.map .float
  | .text vs => vs.toList.map .text

/-- Joining two columns puts the entries of the second after those of the first. -/
theorem cells_of_append? {c d e : Column} (h : c.append? d = some e) : e.cells = c.cells ++ d.cells := by
  rcases append?_eq_some.1 h with ⟨a, b, rfl, rfl, rfl⟩ | ⟨a, b, rfl, rfl, rfl⟩ <;> simp [cells]

/-- Two columns join exactly when they have one kind. -/
theorem kind_eq_of_append? {c d e : Column} (h : c.append? d = some e) : d.kind = c.kind := by
  rcases append?_eq_some.1 h with ⟨a, b, rfl, rfl, rfl⟩ | ⟨a, b, rfl, rfl, rfl⟩ <;> rfl

end Column

namespace Frame

variable {f g F : Frame} {fs : List Frame}

/-- Column `j` of a frame as its list of entries; no entries past the last column. -/
def columnCells (f : Frame) (j : Nat) : List Cell := (f.columns[j]?.map (·.2.cells)).getD []

/-- Frame `g` has other columns than frame `f`: another number of them, or another name or kind
at some position. -/
def SchemaDiffers (f g : Frame) : Prop :=
  g.columns.length ≠ f.columns.length ∨
    ∃ j, ∃ (hf : j < f.columns.length) (hg : j < g.columns.length),
      g.columns[j].1 ≠ f.columns[j].1 ∨ g.columns[j].2.kind ≠ f.columns[j].2.kind

/-- Differing in schema is having another list of column names and kinds. -/
theorem schemaDiffers_iff : SchemaDiffers f g ↔ g.schema ≠ f.schema := by
  rw [SchemaDiffers, Iff.comm, ne_eq, List.ext_getElem_iff]
  simp only [schema, List.length_map, List.getElem_map, Prod.mk.injEq, not_and_or, not_forall]
  constructor
  · rintro (hlen | ⟨j, hf, hg, hne⟩)
    · exact .inl hlen
    · exact .inr ⟨j, hg, hf, hne⟩
  · rintro (hlen | ⟨j, hg, hf, hne⟩)
    · exact .inl hlen
    · exact .inr ⟨j, hf, hg, hne⟩

/-- Frames whose columns agree pairwise in name and kind, and which have as many columns, have
one schema. -/
theorem schema_eq_of_forall_zip (hlen : g.columns.length = f.columns.length)
    (h : ∀ x ∈ f.columns.zip g.columns, x.2.1 = x.1.1 ∧ x.2.2.kind = x.1.2.kind) :
    g.schema = f.schema := by
  refine List.ext_getElem (by simp [schema, hlen]) fun j h₁ h₂ => ?_
  have hj : j < (f.columns.zip g.columns).length := by simp [hlen]; simpa [schema] using h₂
  have hx := h _ (List.getElem_mem hj)
  simp only [List.getElem_zip] at hx
  simp only [schema, List.getElem_map, hx.1, hx.2]

/-- Two frames join exactly when they have one schema. -/
theorem append_isOk_iff : (∃ F, f.append g = .ok F) ↔ g.schema = f.schema := by
  constructor
  · rintro ⟨F, h⟩
    obtain ⟨-, hlen, hall, -⟩ := append_eq_ok h
    refine schema_eq_of_forall_zip hlen fun x hx => ?_
    -- the pair of columns at each position has one name and joined
    obtain ⟨y, -, hxy⟩ := exists_of_forall₂_of_mem_right hall.flip hx
    exact ⟨hxy.2.2, Column.kind_eq_of_append? hxy.2.1⟩
  · intro h
    obtain ⟨F, hF, -⟩ := append_of_schema h
    exact ⟨F, hF⟩

/-- A join of two frames fails only on a schema mismatch. -/
theorem append_eq_error {e : FrameError} (h : f.append g = .error e) :
    ∃ issue, e = .schemaMismatch issue := by
  unfold append at h
  by_cases hlen : g.columns.length = f.columns.length
  · simp only [hlen, ne_eq, not_true_eq_false, if_false] at h
    rcases Except.bind_eq_error.1 h with hcols | ⟨cols, -, hk⟩
    · -- the first pair of columns that differs in name or kind
      obtain ⟨⟨⟨n, c⟩, ⟨m, d⟩⟩, -, hx⟩ := mapM_eq_error hcols
      by_cases hnm : n = m
      · simp only [hnm, not_true_eq_false, if_false] at hx
        split at hx
        · cases hx
        · cases hx
          exact ⟨_, rfl⟩
      · simp only [hnm, not_false_eq_true, if_true, throw, throwThe, MonadExceptOf.throw, bind,
          Except.bind] at hx
        cases hx
        exact ⟨_, rfl⟩
    · cases hk
  · simp only [hlen, ne_eq, not_false_eq_true, if_true, throw, throwThe, MonadExceptOf.throw, bind,
      Except.bind] at h
    cases h
    exact ⟨_, rfl⟩

/-- A join of two frames keeps the first frame's schema. -/
theorem schema_append (h : f.append g = .ok F) : F.schema = f.schema := by
  obtain ⟨F', hF', -, hs⟩ := append_of_schema (append_isOk_iff.1 ⟨F, h⟩)
  rw [h] at hF'
  cases hF'
  exact hs

/-- Each column of a join of two frames holds the entries of the first frame's column and then
those of the second's. -/
theorem columnCells_append (h : f.append g = .ok F) (j : Nat) :
    F.columnCells j = f.columnCells j ++ g.columnCells j := by
  obtain ⟨-, hlen, hall, -⟩ := append_eq_ok h
  obtain ⟨hlenF, hget⟩ := List.forall₂_iff_get.1 hall
  simp only [List.length_zip, hlen, Nat.min_self] at hlenF
  by_cases hj : j < f.columns.length
  · have hjz : j < (f.columns.zip g.columns).length := by simp [hlen, hj]
    have hx := hget j hjz (by rw [← hlenF]; exact hj)
    simp only [List.get_eq_getElem, List.getElem_zip] at hx
    simp [columnCells, hj, hlen ▸ hj, hlenF ▸ hj, Column.cells_of_append? hx.2.1]
  · have hjg : g.columns.length ≤ j := by omega
    have hjF : F.columns.length ≤ j := by omega
    simp [columnCells, Nat.le_of_not_lt hj, hjg, hjF]

/-- Joining frames one after another onto `f` succeeds exactly when each has `f`'s schema. -/
theorem foldlM_append_isOk_iff : (∃ F, fs.foldlM append f = .ok F) ↔ ∀ g ∈ fs, g.schema = f.schema := by
  constructor
  · rintro ⟨F, h⟩
    induction fs generalizing f with
    | nil => simp
    | cons g fs ih =>
      rw [List.foldlM_cons, Except.bind_eq_ok] at h
      obtain ⟨F₁, h₁, hrest⟩ := h
      intro g' hg'
      rcases List.mem_cons.1 hg' with rfl | hg'
      · exact append_isOk_iff.1 ⟨F₁, h₁⟩
      · rw [ih hrest g' hg', schema_append h₁]
  · intro h
    obtain ⟨F, hF, -⟩ := foldlM_append_of_schema f h
    exact ⟨F, hF⟩

/-- Joining frames one after another fails only on a schema mismatch. -/
theorem foldlM_append_eq_error {e : FrameError} (h : fs.foldlM append f = .error e) :
    ∃ issue, e = .schemaMismatch issue := by
  induction fs generalizing f with
  | nil => cases h
  | cons g fs ih =>
    rw [List.foldlM_cons] at h
    rcases Except.bind_eq_error.1 h with h₁ | ⟨F₁, -, hrest⟩
    · exact append_eq_error h₁
    · exact ih hrest

/-- Joining frames one after another onto `f` keeps `f`'s index name and schema, and puts the
index and every column of each frame after those of the frames before it. -/
theorem foldlM_append_eq_ok (h : fs.foldlM append f = .ok F) :
    F.indexName = f.indexName ∧ F.schema = f.schema ∧
      F.index.toList = f.index.toList ++ fs.flatMap (·.index.toList) ∧
      ∀ j, F.columnCells j = f.columnCells j ++ fs.flatMap (·.columnCells j) := by
  induction fs generalizing f with
  | nil =>
    cases h
    simp
  | cons g fs ih =>
    rw [List.foldlM_cons, Except.bind_eq_ok] at h
    obtain ⟨F₁, h₁, hrest⟩ := h
    obtain ⟨hn, hs, hi, hc⟩ := ih hrest
    refine ⟨hn.trans (indexName_append h₁), hs.trans (schema_append h₁), ?_, fun j => ?_⟩
    · rw [hi, (append_eq_ok h₁).1]
      simp
    · rw [hc j, columnCells_append h₁ j]
      simp

theorem concat_cons (f : Frame) (fs : List Frame) : concat (f :: fs) = (fs.foldlM append f).map some :=
  rfl

theorem concat_cons_ne_none : concat (f :: fs) ≠ .ok none := by
  rw [concat_cons]
  cases fs.foldlM append f <;> simp [Except.map]

/-- Frames fail to join, with a schema mismatch, exactly when a later one differs from the
first in schema. -/
theorem concat_cons_mismatch_iff :
    (∃ issue, concat (f :: fs) = .error (.schemaMismatch issue)) ↔ ∃ g ∈ fs, g.schema ≠ f.schema := by
  rw [concat_cons]
  cases hx : fs.foldlM append f with
  | error e =>
    have hne : ¬ ∀ g ∈ fs, g.schema = f.schema := fun hall => by
      obtain ⟨F, hF⟩ := foldlM_append_isOk_iff.2 hall
      rw [hx] at hF
      cases hF
    obtain ⟨issue, rfl⟩ := foldlM_append_eq_error hx
    simp only [Except.map, Except.error.injEq, FrameError.schemaMismatch.injEq, exists_eq', true_iff]
    simpa using hne
  | ok F =>
    have hall := foldlM_append_isOk_iff.1 ⟨F, hx⟩
    simp only [Except.map, reduceCtorEq, exists_false, false_iff, not_exists, not_and, not_not]
    exact hall

/-- Frames of the first frame's schema join into one frame under the first frame's index name
and schema, whose index and every column are those of all the frames one after another. -/
theorem concat_cons_eq_ok (h : ∀ g ∈ fs, g.schema = f.schema) :
    ∃ G, concat (f :: fs) = .ok (some G) ∧ G.indexName = f.indexName ∧ G.schema = f.schema ∧
      G.index.toList = (f :: fs).flatMap (·.index.toList) ∧
      ∀ j, G.columnCells j = (f :: fs).flatMap (·.columnCells j) := by
  obtain ⟨F, hF⟩ := foldlM_append_isOk_iff.2 h
  obtain ⟨hn, hs, hi, hc⟩ := foldlM_append_eq_ok hF
  refine ⟨F, by rw [concat_cons, hF]; rfl, hn, hs, by simpa using hi, fun j => by simpa using hc j⟩

/-- Joining frames gives no frame exactly for no frames, fails with a schema mismatch exactly
when some later frame differs from the first in schema, and otherwise gives the frame under the
first frame's index name and schema whose index and every column are those of all the frames
one after another. -/
theorem concat_exact (fs : List Frame) :
    (concat fs = .ok none ↔ fs = []) ∧
    ((∃ issue, concat fs = .error (.schemaMismatch issue)) ↔
      ∃ f rest, fs = f :: rest ∧ ∃ g ∈ rest, SchemaDiffers f g) ∧
    ∀ f rest, fs = f :: rest → (∀ g ∈ rest, ¬ SchemaDiffers f g) →
      ∃ G, concat fs = .ok (some G) ∧ G.indexName = f.indexName ∧ G.schema = f.schema ∧
        G.index.toList = fs.flatMap (·.index.toList) ∧
        ∀ j, G.columnCells j = fs.flatMap (·.columnCells j) := by
  cases fs with
  | nil => simp [concat]
  | cons f rest =>
    refine ⟨by simp [concat_cons_ne_none], ?_, ?_⟩
    · rw [concat_cons_mismatch_iff]
      constructor
      · rintro ⟨g, hg, hne⟩
        exact ⟨f, rest, rfl, g, hg, schemaDiffers_iff.2 hne⟩
      · rintro ⟨f', rest', heq, g, hg, hd⟩
        cases heq
        exact ⟨g, hg, schemaDiffers_iff.1 hd⟩
    · rintro f' rest' heq hall
      cases heq
      exact concat_cons_eq_ok fun g hg => not_not.1 (mt schemaDiffers_iff.2 (hall g hg))

end Frame

end FrameCache
