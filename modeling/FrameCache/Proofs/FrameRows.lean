import Mathlib
import FrameCache.Proofs.WellFormed
import FrameCache.Proofs.RowOrder

/-!
# Frames as lists of rows

A frame is read here as the list of its rows (`Frame.rows`): each row is a timestamp and the
entry of every column, in column order. A well-formed frame is determined by its index name,
its schema and its rows (`Frame.eq_of_rows`). Taking rows, filtering a window and joining
frames are each one list operation on the rows (`rows_takeRows`, `rows_filterRange`,
`rows_concat`).

Main statement: in the window of a join, the frames none of whose rows lie in the window can be
left out of the join (`Frame.filterRange_concat_filter`). A read that skips the partitions whose
interval misses its window therefore returns the rows a read of every partition would.
-/

namespace FrameCache

/-- One entry of a column. -/
inductive Cell where
  | float (x : Double)
  | text (s : String)

namespace Column

/-- The entry of the column at row `i`; past the end, the default of its kind. -/
def cell (c : Column) (i : Nat) : Cell :=
  match c with
  | .float vs => .float (vs.getD i default)
  | .text vs => .text (vs.getD i default)

theorem cell_takeRows (c : Column) {rows : List Nat} {k : Nat} (hk : k < rows.length) :
    (c.takeRows rows).cell k = c.cell (rows.getD k 0) := by
  cases c <;> simp only [takeRows, cell, getD_select _ hk]

@[simp] theorem kind_takeRows (c : Column) (rows : List Nat) : (c.takeRows rows).kind = c.kind := by
  cases c <;> rfl

theorem cell_append?_left {c d e : Column} (h : c.append? d = some e) {i : Nat} (hi : i < c.size) :
    e.cell i = c.cell i := by
  rcases append?_eq_some.1 h with ⟨a, b, rfl, rfl, rfl⟩ | ⟨a, b, rfl, rfl, rfl⟩ <;>
    simp only [size] at hi <;> simp [cell, Array.getD_eq_getD_getElem?, Array.getElem?_append_left hi]

theorem cell_append?_right {c d e : Column} (h : c.append? d = some e) (i : Nat) :
    e.cell (c.size + i) = d.cell i := by
  rcases append?_eq_some.1 h with ⟨a, b, rfl, rfl, rfl⟩ | ⟨a, b, rfl, rfl, rfl⟩ <;>
    simp [cell, size, Array.getD_eq_getD_getElem?, Array.getElem?_append_right]

/-- Two columns of one kind and length with the same entries are equal. -/
theorem ext_cell {c d : Column} (hk : c.kind = d.kind) (hs : c.size = d.size)
    (h : ∀ i < c.size, c.cell i = d.cell i) : c = d := by
  cases c with
  | float vs =>
    cases d with
    | float ws =>
      congr 1
      refine Array.ext hs fun i h₁ h₂ => ?_
      simpa [cell, Array.getD_eq_getD_getElem?, h₁, h₂] using h i h₁
    | text ws => cases hk
  | text vs =>
    cases d with
    | float ws => cases hk
    | text ws =>
      congr 1
      refine Array.ext hs fun i h₁ h₂ => ?_
      simpa [cell, Array.getD_eq_getD_getElem?, h₁, h₂] using h i h₁

end Column

namespace Frame

variable {f g F G : Frame}

/-- The row at position `i`: its timestamp and the entry of every column, in column order. -/
def row (f : Frame) (i : Nat) : Timestamp × List Cell :=
  (f.index.getD i default, f.columns.map fun m => m.2.cell i)

/-- The rows of the frame, in order. -/
def rows (f : Frame) : List (Timestamp × List Cell) := (List.range f.size).map f.row

/-- Whether the timestamp of a row lies in `[start, stop]`. -/
def inWindow (start stop : Timestamp) (r : Timestamp × List Cell) : Bool := start ≤ r.1 && r.1 ≤ stop

@[simp] theorem length_rows (f : Frame) : f.rows.length = f.size := by
  simp [rows]

theorem getElem?_rows {i : Nat} (hi : i < f.size) : f.rows[i]? = some (f.row i) := by
  simp [rows, hi]

/-- Every row's timestamp is in the index. -/
theorem fst_mem_index {r : Timestamp × List Cell} (hr : r ∈ f.rows) : r.1 ∈ f.index := by
  simp only [rows, List.mem_map, List.mem_range] at hr
  obtain ⟨i, hi, rfl⟩ := hr
  simp only [row, Array.getD_eq_getD_getElem?]
  rw [Array.getElem?_eq_getElem hi]
  exact Array.getElem_mem hi

theorem row_takeRows (f : Frame) {R : List Nat} {k : Nat} (hk : k < R.length) :
    (f.takeRows R).row k = f.row (R.getD k 0) := by
  simp only [row, takeRows, getD_select _ hk, List.map_map, Prod.mk.injEq, true_and]
  refine List.map_congr_left fun m _ => ?_
  obtain ⟨n, c⟩ := m
  exact Column.cell_takeRows c hk

/-- Taking rows takes them from the list of rows. -/
theorem rows_takeRows (f : Frame) (R : List Nat) : (f.takeRows R).rows = R.map f.row := by
  apply List.ext_getElem (by simp [size_takeRows])
  intro k h₁ h₂
  have hk : k < R.length := by simpa using h₂
  simp only [rows, List.getElem_map, List.getElem_range, row_takeRows f hk]
  simp [hk]

/-- Filtering a window keeps the rows whose timestamp lies in it. -/
theorem rows_filterRange (f : Frame) (start stop : Timestamp) :
    (f.filterRange start stop).rows = f.rows.filter (inWindow start stop) := by
  rw [filterRange, rows_takeRows, rows, List.filter_map]
  congr 1
  refine List.filter_congr fun i hi => ?_
  rw [List.mem_range] at hi
  have hi' : i < f.index.size := hi
  simp [inWindow, row, Array.getElem?_eq_getElem hi', Array.getD_eq_getD_getElem?]

@[simp] theorem indexName_takeRows (f : Frame) (R : List Nat) : (f.takeRows R).indexName = f.indexName :=
  rfl

@[simp] theorem schema_takeRows (f : Frame) (R : List Nat) : (f.takeRows R).schema = f.schema := by
  simp [takeRows, schema, Function.comp_def]

theorem indexName_append (h : f.append g = .ok F) : F.indexName = f.indexName :=
  (append_eq_ok h).2.2.2

/-- The entries of a joined frame at a row of the first frame are those of the first frame. -/
theorem cells_append_left (hf : f.WellFormed) (h : f.append g = .ok F) {i : Nat} (hi : i < f.size) :
    F.columns.map (fun m => m.2.cell i) = f.columns.map fun m => m.2.cell i := by
  obtain ⟨-, hlen, hall, -⟩ := append_eq_ok h
  obtain ⟨hlenF, hget⟩ := List.forall₂_iff_get.1 hall
  apply List.ext_getElem (by simp [← hlenF, hlen])
  intro j h₁ h₂
  have hj : j < (f.columns.zip g.columns).length := by simp [hlen]; simpa using h₂
  have hx := hget j hj (by simpa using h₁)
  simp only [List.get_eq_getElem, List.getElem_zip] at hx
  simp only [List.getElem_map]
  rw [Column.cell_append?_left hx.2.1 (by rw [hf.sizes _ (List.getElem_mem _)]; exact hi)]

/-- The entries of a joined frame past the rows of the first frame are those of the second. -/
theorem cells_append_right (hf : f.WellFormed) (h : f.append g = .ok F) (i : Nat) :
    F.columns.map (fun m => m.2.cell (f.size + i)) = g.columns.map fun m => m.2.cell i := by
  obtain ⟨-, hlen, hall, -⟩ := append_eq_ok h
  obtain ⟨hlenF, hget⟩ := List.forall₂_iff_get.1 hall
  apply List.ext_getElem (by simp [← hlenF, hlen])
  intro j h₁ h₂
  have hjf : j < f.columns.length := by rw [← hlen]; simpa using h₂
  have hj : j < (f.columns.zip g.columns).length := by simp [hlen, hjf]
  have hx := hget j hj (by simpa using h₁)
  simp only [List.get_eq_getElem, List.getElem_zip] at hx
  have hcell := Column.cell_append?_right hx.2.1 i
  rw [hf.sizes _ (List.getElem_mem hjf)] at hcell
  simpa using hcell

/-- Joining two frames puts the rows of the second after those of the first. -/
theorem rows_append (hf : f.WellFormed) (h : f.append g = .ok F) : F.rows = f.rows ++ g.rows := by
  have hidx := (append_eq_ok h).1
  have hsize : F.size = f.size + g.size := by simp [size, hidx]
  rw [rows, rows, rows, hsize, List.range_add, List.map_append, List.map_map]
  congr 1
  · refine List.map_congr_left fun i hi => ?_
    rw [List.mem_range] at hi
    have hi' : i < f.index.size := hi
    rw [row, row, cells_append_left hf h hi, hidx]
    simp [Array.getD_eq_getD_getElem?, Array.getElem?_append_left hi']
  · refine List.map_congr_left fun i _ => ?_
    rw [Function.comp_apply, row, row, cells_append_right hf h i, hidx]
    simp [Array.getD_eq_getD_getElem?, Array.getElem?_append_right, size]

theorem rows_foldlM_append : ∀ (fs : List Frame) {f F : Frame}, f.WellFormed → (∀ g ∈ fs, g.WellFormed) →
    fs.foldlM append f = .ok F → F.rows = f.rows ++ fs.flatMap rows ∧ F.indexName = f.indexName := by
  intro fs
  induction fs with
  | nil =>
    intro f F _ _ h
    cases h
    simp
  | cons g fs ih =>
    intro f F hf hfs h
    rw [List.foldlM_cons, Except.bind_eq_ok] at h
    obtain ⟨f', happ, hrest⟩ := h
    have hg := hfs g List.mem_cons_self
    obtain ⟨hrows, hname⟩ := ih (hf.append hg happ) (fun g' hg' => hfs g' (List.mem_cons_of_mem _ hg'))
      hrest
    rw [hrows, hname, rows_append hf happ, indexName_append happ]
    simp

/-- A join of well-formed frames holds their rows one frame after another, under the first
frame's index name. -/
theorem rows_concat {f : Frame} {fs : List Frame} (hfs : ∀ g ∈ f :: fs, g.WellFormed)
    (h : concat (f :: fs) = .ok (some F)) : F.rows = (f :: fs).flatMap rows ∧ F.indexName = f.indexName := by
  simp only [concat, Functor.map, Except.map] at h
  split at h
  · cases h
  · rename_i F' hF
    cases h
    obtain ⟨hrows, hname⟩ := rows_foldlM_append fs (hfs f List.mem_cons_self)
      (fun g hg => hfs g (List.mem_cons_of_mem _ hg)) hF
    exact ⟨by rw [hrows]; simp, hname⟩

/-- A well-formed frame is determined by its index name, its schema and its rows. -/
theorem eq_of_rows (hf : f.WellFormed) (hg : g.WellFormed) (hn : f.indexName = g.indexName)
    (hs : f.schema = g.schema) (hr : f.rows = g.rows) : f = g := by
  have hsize : f.size = g.size := by rw [← length_rows, hr, length_rows]
  have hrow : ∀ i < f.size, f.row i = g.row i := by
    intro i hi
    have h₁ := getElem?_rows hi
    rw [hr, getElem?_rows (hsize ▸ hi)] at h₁
    exact (Option.some.inj h₁).symm
  have hindex : f.index = g.index := by
    refine Array.ext hsize fun i h₁ h₂ => ?_
    have := congrArg Prod.fst (hrow i h₁)
    simpa [row, Array.getD_eq_getD_getElem?, h₁, h₂] using this
  have hlen : f.columns.length = g.columns.length := by
    simpa [schema] using congrArg List.length hs
  have hcols : f.columns = g.columns := by
    refine List.ext_getElem hlen fun j h₁ h₂ => ?_
    -- the schema gives name and kind, the rows give every entry
    have hnk : f.columns[j].1 = g.columns[j].1 ∧ f.columns[j].2.kind = g.columns[j].2.kind := by
      have := congrArg (·[j]?) hs
      simpa [schema, h₁, h₂] using this
    have hcsize : f.columns[j].2.size = f.size := hf.sizes _ (List.getElem_mem h₁)
    refine Prod.ext hnk.1 (Column.ext_cell hnk.2 ?_ fun i hi => ?_)
    · rw [hcsize, hg.sizes _ (List.getElem_mem h₂), hsize]
    · have := congrArg (fun r => r.2[j]?) (hrow i (hcsize ▸ hi))
      simpa [row, h₁, h₂] using this
  obtain ⟨n, idx, cols⟩ := f
  obtain ⟨n', idx', cols'⟩ := g
  simp only at hn hindex hcols
  subst hn hindex hcols
  rfl

/-- A join of well-formed frames of one index name and schema is well formed, has that index
name and schema, and holds their rows one frame after another. -/
theorem concat_of_shape {fs : List Frame} {name : String} {sch : List (String × ColumnKind)}
    (hfs : ∀ g ∈ fs, g.WellFormed ∧ g.indexName = name ∧ g.schema = sch) (h : concat fs = .ok (some F)) :
    F.WellFormed ∧ F.indexName = name ∧ F.schema = sch ∧ F.rows = fs.flatMap rows := by
  cases fs with
  | nil => cases h
  | cons f fs =>
    have hwf : ∀ g ∈ f :: fs, g.WellFormed := fun g hg => (hfs g hg).1
    obtain ⟨-, hn₀, hs₀⟩ := hfs f List.mem_cons_self
    -- the join is the one `foldlM_append_of_schema` builds, of the first frame's schema
    obtain ⟨F', hF', -, hs'⟩ := foldlM_append_of_schema f fun g hg => by
      rw [(hfs g (List.mem_cons_of_mem _ hg)).2.2, hs₀]
    have hF : concat (f :: fs) = .ok (some F') := by
      simp [concat, hF', Functor.map, Except.map]
    rw [hF] at h
    cases h
    obtain ⟨hrows, hname⟩ := rows_concat hwf hF
    exact ⟨wellFormed_of_concat hwf hF, hname.trans hn₀, hs'.trans hs₀, hrows⟩

theorem flatMap_filter_of_nil {α β : Type} {l : List α} {keep : α → Bool} {h : α → List β}
    (hnil : ∀ a ∈ l, keep a = false → h a = []) : (l.filter keep).flatMap h = l.flatMap h := by
  induction l with
  | nil => rfl
  | cons a l ih =>
    have ih' := ih fun b hb => hnil b (List.mem_cons_of_mem _ hb)
    by_cases ha : keep a = true
    · simp [ha, ih']
    · simp [ha, ih', hnil a List.mem_cons_self (by simpa using ha)]

/-- In the window of a join of frames of one index name and schema, the frames that have no
row in the window can be left out: of items each with a frame, joining the frames of those
that `keep` keeps gives the same rows in the window as joining all, when every item that `keep`
leaves out has its frame outside the window. -/
theorem filterRange_concat_filter {α : Type} {ps : List α} {start stop : Timestamp} {name : String}
    {sch : List (String × ColumnKind)} (frameOf : α → Frame) (keep : α → Bool)
    (hshape : ∀ p ∈ ps, (frameOf p).WellFormed ∧ (frameOf p).indexName = name ∧ (frameOf p).schema = sch)
    (hmiss : ∀ p ∈ ps, keep p = false → ∀ t ∈ (frameOf p).index, ¬ (start ≤ t ∧ t ≤ stop))
    (hF : concat (ps.map frameOf) = .ok (some F))
    (hG : concat ((ps.filter keep).map frameOf) = .ok (some G)) :
    F.filterRange start stop = G.filterRange start stop := by
  have hall : ∀ g ∈ ps.map frameOf, g.WellFormed ∧ g.indexName = name ∧ g.schema = sch := by
    simp only [List.mem_map]
    rintro g ⟨p, hp, rfl⟩
    exact hshape p hp
  have hkept : ∀ g ∈ (ps.filter keep).map frameOf, g.WellFormed ∧ g.indexName = name ∧ g.schema = sch := by
    simp only [List.mem_map]
    rintro g ⟨p, hp, rfl⟩
    exact hshape p (List.mem_of_mem_filter hp)
  obtain ⟨hFw, hFn, hFs, hFr⟩ := concat_of_shape hall hF
  obtain ⟨hGw, hGn, hGs, hGr⟩ := concat_of_shape hkept hG
  refine eq_of_rows (hFw.filterRange _ _) (hGw.filterRange _ _)
    (by simp only [filterRange, indexName_takeRows, hFn, hGn])
    (by simp only [filterRange, schema_takeRows, hFs, hGs]) ?_
  rw [rows_filterRange, rows_filterRange, hFr, hGr, List.filter_flatMap, List.filter_flatMap,
    List.flatMap_map, List.flatMap_map, flatMap_filter_of_nil]
  -- an item left out has no row in the window
  intro p hp hk
  rw [List.filter_eq_nil_iff]
  intro r hr hw
  simp only [inWindow, Bool.and_eq_true, decide_eq_true_eq] at hw
  exact hmiss p hp hk r.1 (fst_mem_index hr) hw

end Frame

end FrameCache
