import Mathlib
import FrameCache.Frame.Concat
import FrameCache.Frame.Dedup
import FrameCache.Link.Resample
import FrameCache.Link.Bandwidth
import FrameCache.Proofs.Frames

/-!
# Well-formed frames

A frame is well formed when every column has one entry per row of the index and no two
columns share a name (`Frame.WellFormed`). Adding a column checks its length and replaces a
column of the same name where it stands, so it keeps the frame well formed; every other
operation that makes a frame either moves whole rows of all columns at once (`takeRows`, and
through it range filters, sorting and removing repeated rows), joins frames column by column,
or adds columns to a frame of its own. The frames decoded from partition bytes are assembled
column by column in the same way.

`Frame.Built` collects the frames the library can make: from an index alone, by decoding, and
from frames it made by any of its operations. Every one of them is well formed
(`Frame.Built.wellFormed`): one lemma per operation says what it keeps, and an induction over
the ways a frame is made assembles them.
-/

namespace FrameCache

theorem Except.mapError_eq_ok {ε ε' α : Type} {g : ε → ε'} {x : Except ε α} {a : α} :
    x.mapError g = .ok a ↔ x = .ok a := by
  cases x <;> simp [Except.mapError]

namespace Column

@[simp] theorem size_takeRows (c : Column) (rows : List Nat) : (c.takeRows rows).size = rows.length := by
  cases c <;> simp [takeRows, size]

@[simp] theorem size_emptyLike (c : Column) : c.emptyLike.size = 0 := by
  cases c <;> rfl

/-- Two columns join only when both hold doubles or both hold texts, into their entries one
after the other. -/
theorem append?_eq_some {c d e : Column} : c.append? d = some e ↔
    (∃ a b, c = .float a ∧ d = .float b ∧ e = .float (a ++ b)) ∨
      (∃ a b, c = .text a ∧ d = .text b ∧ e = .text (a ++ b)) := by
  cases c <;> cases d <;> simp [append?, eq_comm]

theorem size_of_append? {c d e : Column} (h : c.append? d = some e) : e.size = c.size + d.size := by
  rcases append?_eq_some.1 h with ⟨a, b, rfl, rfl, rfl⟩ | ⟨a, b, rfl, rfl, rfl⟩ <;> simp [size]

end Column

namespace Frame

/-- Every column has one entry per row, and no two columns share a name. -/
structure WellFormed (f : Frame) : Prop where
  sizes : ∀ m ∈ f.columns, m.2.size = f.size
  names : f.columnNames.Nodup

theorem mem_columnNames {f : Frame} {name : String} :
    name ∈ f.columnNames ↔ ∃ c, (name, c) ∈ f.columns := by
  simp [columnNames]

theorem any_name_iff {f : Frame} {name : String} :
    f.columns.any (·.1 == name) = true ↔ name ∈ f.columnNames := by
  rw [List.any_eq_true, columnNames, List.mem_map]
  constructor
  · rintro ⟨m, hm, he⟩
    exact ⟨m, hm, beq_iff_eq.1 he⟩
  · rintro ⟨m, hm, he⟩
    exact ⟨m, hm, beq_iff_eq.2 he⟩

/-- A frame with no columns is well formed. -/
theorem wellFormed_of_columns_nil {f : Frame} (h : f.columns = []) : f.WellFormed where
  sizes m hm := by rw [h] at hm; cases hm
  names := by rw [columnNames, h]; exact List.nodup_nil

theorem wellFormed_ofIndex (index : Array Timestamp) : (ofIndex index).WellFormed :=
  wellFormed_of_columns_nil rfl

theorem WellFormed.withIndexName {f : Frame} (hf : f.WellFormed) (name : String) :
    (f.withIndexName name).WellFormed :=
  ⟨hf.sizes, hf.names⟩

section Insert

variable {f g : Frame} {name : String} {c : Column}

/-- The one way adding a column fails: its length is not the index's. -/
theorem insertColumn_eq_error_iff {e : FrameError} :
    f.insertColumn name c = .error e ↔ c.size ≠ f.size ∧ e = .columnLength name f.size c.size := by
  unfold insertColumn
  by_cases hs : c.size = f.size
  · simp only [hs, ne_eq, not_true_eq_false, if_false, false_and, iff_false]
    split <;> simp
  · simp [hs, eq_comm]

/-- Replacing the column of a name already there. -/
theorem insertColumn_of_mem (hs : c.size = f.size) (hn : name ∈ f.columnNames) :
    f.insertColumn name c =
      .ok { f with columns := f.columns.map fun m => if m.1 == name then (name, c) else m } := by
  simp [insertColumn, hs, any_name_iff.2 hn]

/-- Adding a column under a new name, after the others. -/
theorem insertColumn_of_not_mem (hs : c.size = f.size) (hn : name ∉ f.columnNames) :
    f.insertColumn name c = .ok { f with columns := f.columns ++ [(name, c)] } := by
  have : f.columns.any (·.1 == name) = false := by
    rw [← Bool.not_eq_true, any_name_iff]
    exact hn
  simp [insertColumn, hs, this]

theorem size_of_insertColumn (h : f.insertColumn name c = .ok g) : c.size = f.size := by
  unfold insertColumn at h
  split at h
  · cases h
  · rename_i hs
    exact of_not_not hs

/-- A replacing insertion keeps the names, and so the place of every column. -/
theorem columnNames_insertColumn_of_mem (hn : name ∈ f.columnNames)
    (h : f.insertColumn name c = .ok g) : g.columnNames = f.columnNames := by
  rw [insertColumn_of_mem (size_of_insertColumn h) hn] at h
  cases h
  simp only [columnNames, List.map_map]
  refine List.map_congr_left fun m _ => ?_
  by_cases hm : m.1 = name <;> simp [hm]

/-- After an insertion the name reads the inserted column. -/
theorem column_insertColumn (h : f.insertColumn name c = .ok g) : g.column name = .ok c := by
  by_cases hn : name ∈ f.columnNames
  · rw [insertColumn_of_mem (size_of_insertColumn h) hn] at h
    cases h
    obtain ⟨d, hd⟩ := mem_columnNames.1 hn
    have hfind : (f.columns.find? fun m => m.1 == name).isSome := by
      rw [List.find?_isSome]
      exact ⟨_, hd, by simp⟩
    obtain ⟨m, hm⟩ := Option.isSome_iff_exists.1 hfind
    have hmn : m.1 = name := by simpa using List.find?_some hm
    -- replacing keeps every name, so the search stops at the same column
    have hpred : ((fun m : String × Column => m.1 == name) ∘
        fun m => if m.1 == name then (name, c) else m) = fun m => m.1 == name := by
      funext m'
      by_cases h' : m'.1 = name <;> simp [h']
    simp only [column, List.find?_map, hpred, hm, Option.map_some, hmn, beq_self_eq_true, if_true]
  · rw [insertColumn_of_not_mem (size_of_insertColumn h) hn] at h
    cases h
    have hnone : f.columns.find? (fun m => m.1 == name) = none := by
      rw [List.find?_eq_none]
      intro m hm hmn
      exact hn (mem_columnNames.2 ⟨m.2, by simpa using (beq_iff_eq.1 hmn) ▸ hm⟩)
    simp [column, List.find?_append, hnone]

theorem WellFormed.insertColumn (hf : f.WellFormed) (h : f.insertColumn name c = .ok g) :
    g.WellFormed := by
  have hs := size_of_insertColumn h
  have hidx : g.size = f.size := by rw [size, size, index_insertColumn h]
  by_cases hn : name ∈ f.columnNames
  · have hnames := columnNames_insertColumn_of_mem hn h
    have hcols : g.columns = f.columns.map fun m => if m.1 == name then (name, c) else m := by
      rw [insertColumn_of_mem hs hn] at h
      cases h
      rfl
    refine ⟨fun m hm => ?_, by rw [hnames]; exact hf.names⟩
    rw [hcols] at hm
    obtain ⟨m', hm', rfl⟩ := List.mem_map.1 hm
    rw [hidx]
    by_cases hmn : m'.1 = name
    · simpa [hmn] using hs
    · simpa [hmn] using hf.sizes m' hm'
  · have hcols : g.columns = f.columns ++ [(name, c)] := by
      rw [insertColumn_of_not_mem hs hn] at h
      cases h
      rfl
    refine ⟨fun m hm => ?_, ?_⟩
    · rw [hcols] at hm
      rw [hidx]
      rcases List.mem_append.1 hm with hm | hm
      · exact hf.sizes m hm
      · rw [List.mem_singleton.1 hm]
        exact hs
    · rw [columnNames, hcols, List.map_append, List.nodup_append]
      refine ⟨hf.names, List.pairwise_singleton _ _, fun a ha b hb => ?_⟩
      rw [List.map_singleton, List.mem_singleton] at hb
      rw [hb]
      rintro rfl
      exact hn ha

/-- Columns added one after another to a well-formed frame leave it well formed. -/
theorem WellFormed.foldlM_insertColumn :
    ∀ (cols : List (String × Column)) {f g : Frame}, f.WellFormed →
      cols.foldlM (fun f (n, c) => f.insertColumn n c) f = .ok g → g.WellFormed := by
  intro cols
  induction cols with
  | nil =>
    intro f g hf h
    cases h
    exact hf
  | cons m cols ih =>
    intro f g hf h
    rw [List.foldlM_cons, Except.bind_eq_ok] at h
    obtain ⟨f', hins, hrest⟩ := h
    exact ih (hf.insertColumn hins) hrest

/-- A frame assembled from parts is well formed, whatever the parts. -/
theorem wellFormed_ofParts {name : String} {index : Array Timestamp} {cols : List (String × Column)}
    (h : ofParts name index cols = .ok g) : g.WellFormed :=
  WellFormed.foldlM_insertColumn cols (wellFormed_of_columns_nil rfl) h

end Insert

section Rows

variable {f : Frame}

@[simp] theorem columnNames_takeRows (f : Frame) (rows : List Nat) :
    (f.takeRows rows).columnNames = f.columnNames := by
  simp [takeRows, columnNames, Function.comp_def]

/-- Taken rows have every column as long as the index, whatever the columns were. -/
theorem sizes_takeRows (f : Frame) (rows : List Nat) :
    ∀ m ∈ (f.takeRows rows).columns, m.2.size = (f.takeRows rows).size := by
  intro m hm
  rw [Frame.size_takeRows]
  simp only [Frame.takeRows, List.mem_map] at hm
  obtain ⟨m', -, rfl⟩ := hm
  simp

/-- Moving whole rows keeps every column as long as the index. -/
theorem WellFormed.takeRows (hf : f.WellFormed) (rows : List Nat) : (f.takeRows rows).WellFormed where
  sizes := sizes_takeRows f rows
  names := by rw [columnNames_takeRows]; exact hf.names

theorem WellFormed.filterRange (hf : f.WellFormed) (start stop : Timestamp) :
    (f.filterRange start stop).WellFormed :=
  hf.takeRows _

theorem WellFormed.sortByIndex (hf : f.WellFormed) : f.sortByIndex.WellFormed := by
  unfold Frame.sortByIndex
  split
  · exact hf
  · exact hf.takeRows _

@[simp] theorem size_emptyLike (f : Frame) : f.emptyLike.size = 0 := rfl

theorem WellFormed.emptyLike (hf : f.WellFormed) : f.emptyLike.WellFormed where
  sizes := by
    intro m hm
    simp only [Frame.emptyLike, List.mem_map] at hm
    obtain ⟨m', -, rfl⟩ := hm
    simp
  names := by simpa [Frame.emptyLike, columnNames, Function.comp_def] using hf.names

theorem WellFormed.dedup (hf : f.WellFormed) {names : List String} {g : Frame}
    (h : f.dedup names = .ok g) : g.WellFormed := by
  rw [Frame.dedup, Except.bind_eq_ok] at h
  obtain ⟨_, -, h⟩ := h
  cases h
  exact (hf.takeRows _).sortByIndex

end Rows

section Join

variable {f g F : Frame}

theorem exists_of_forall₂_of_mem_right {α β : Type} {R : α → β → Prop} {l₁ : List α} {l₂ : List β}
    (h : List.Forall₂ R l₁ l₂) {b : β} (hb : b ∈ l₂) : ∃ a ∈ l₁, R a b := by
  induction h with
  | nil => cases hb
  | cons hr _ ih =>
    rcases List.mem_cons.1 hb with rfl | hb
    · exact ⟨_, List.mem_cons_self, hr⟩
    · obtain ⟨a, ha, hra⟩ := ih hb
      exact ⟨a, List.mem_cons_of_mem _ ha, hra⟩

/-- What joining two frames does when it succeeds: the indexes one after the other, each column
of the first, under its name, followed by the column of the second in its place, which has the
same name, and the index name of the first. -/
theorem append_eq_ok (h : f.append g = .ok F) :
    F.index = f.index ++ g.index ∧ g.columns.length = f.columns.length ∧
      List.Forall₂ (fun x y => y.1 = x.1.1 ∧ x.1.2.append? x.2.2 = some y.2 ∧ x.2.1 = x.1.1)
        (f.columns.zip g.columns) F.columns ∧ F.indexName = f.indexName := by
  unfold append at h
  by_cases hlen : g.columns.length = f.columns.length
  · simp only [hlen, ne_eq, not_true_eq_false, if_false] at h
    rw [Except.bind_eq_ok] at h
    obtain ⟨cols, hcols, h⟩ := h
    cases h
    refine ⟨rfl, hlen, (mapM_eq_ok_iff.1 hcols).imp fun x y hxy => ?_, rfl⟩
    obtain ⟨⟨n, c⟩, ⟨m, d⟩⟩ := x
    by_cases hnm : n = m
    · simp only [hnm, not_true_eq_false, if_false] at hxy
      split at hxy
      · rename_i e he
        cases hxy
        exact ⟨hnm.symm, he, hnm.symm⟩
      · cases hxy
    · simp [hnm, throw, throwThe, MonadExceptOf.throw, bind, Except.bind] at hxy
  · simp [hlen, throw, throwThe, MonadExceptOf.throw, bind, Except.bind] at h

theorem WellFormed.append (hf : f.WellFormed) (hg : g.WellFormed) (h : f.append g = .ok F) :
    F.WellFormed := by
  obtain ⟨hidx, hlen, hall, -⟩ := append_eq_ok h
  have hnames : F.columnNames = f.columnNames := by
    have h1 : List.Forall₂ (· = ·) (F.columns.map (·.1)) ((f.columns.zip g.columns).map (·.1.1)) := by
      rw [List.forall₂_map_left_iff, List.forall₂_map_right_iff]
      exact List.Forall₂.flip (hall.imp fun x y hxy => hxy.1)
    rw [List.forall₂_eq_eq_eq] at h1
    rw [columnNames, h1, columnNames,
      show (fun x : (String × Column) × (String × Column) => x.1.1) = Prod.fst ∘ Prod.fst from rfl,
      ← List.map_map, List.map_fst_zip (by omega)]
  refine ⟨fun m hm => ?_, by rw [hnames]; exact hf.names⟩
  obtain ⟨x, hx, hxm⟩ := exists_of_forall₂_of_mem_right hall hm
  rw [Column.size_of_append? hxm.2.1, hf.sizes _ (List.of_mem_zip hx).1,
    hg.sizes _ (List.of_mem_zip hx).2, size, size, size, hidx, Array.size_append]

theorem WellFormed.foldlM_append :
    ∀ (fs : List Frame) {f F : Frame}, f.WellFormed → (∀ g ∈ fs, g.WellFormed) →
      fs.foldlM Frame.append f = .ok F → F.WellFormed := by
  intro fs
  induction fs with
  | nil =>
    intro f F hf _ h
    cases h
    exact hf
  | cons g fs ih =>
    intro f F hf hfs h
    rw [List.foldlM_cons, Except.bind_eq_ok] at h
    obtain ⟨f', happ, hrest⟩ := h
    exact ih (hf.append (hfs g List.mem_cons_self) happ)
      (fun g' hg' => hfs g' (List.mem_cons_of_mem _ hg')) hrest

theorem wellFormed_of_concat {fs : List Frame} (hfs : ∀ g ∈ fs, g.WellFormed)
    (h : concat fs = .ok (some F)) : F.WellFormed := by
  cases fs with
  | nil => cases h
  | cons f fs =>
    simp only [concat, Functor.map, Except.map] at h
    split at h
    · cases h
    · rename_i F' hF
      cases h
      exact WellFormed.foldlM_append fs (hfs f List.mem_cons_self)
        (fun g hg => hfs g (List.mem_cons_of_mem _ hg)) hF

end Join

section Derived

variable {f g : Frame}

/-- A frame read from partition bytes is assembled column by column, so it is well formed. -/
theorem wellFormed_decode {bytes : ByteArray} {h : PartitionHeader} (hd : PartitionCodec.decode bytes = .ok (h, f)) :
    f.WellFormed := by
  unfold PartitionCodec.decode at hd
  simp only [Except.bind_eq_ok] at hd
  obtain ⟨_, _, _, _, _, _, _, _, _, _, hd⟩ := hd
  split at hd
  · rename_i f' hparts
    cases hd
    exact wellFormed_ofParts hparts
  · cases hd

/-- A resampled frame is built afresh: an index, then the link and the data column. -/
theorem wellFormed_resample {linkColumn dataColumn : String} {resolution : TimeDelta} {kind : DataKind}
    (h : resample f linkColumn dataColumn resolution kind = .ok g) : g.WellFormed := by
  unfold resample at h
  split at h
  · simp [throw, throwThe, MonadExceptOf.throw, bind, Except.bind] at h
  · simp only [Except.bind_eq_ok] at h
    obtain ⟨_, _, _, _, _, _, g₁, h₁, h₂⟩ := h
    exact (((wellFormed_ofIndex _).withIndexName _).insertColumn (Except.mapError_eq_ok.1 h₁)).insertColumn
      (Except.mapError_eq_ok.1 h₂)

theorem WellFormed.deriveLinkColumn (hf : f.WellFormed) {device interface link : String}
    (h : Link.deriveColumn f device interface link = .ok g) : g.WellFormed := by
  unfold Link.deriveColumn at h
  simp only [Except.bind_eq_ok] at h
  obtain ⟨_, _, _, _, h⟩ := h
  exact hf.insertColumn (Except.mapError_eq_ok.1 h)

theorem WellFormed.bandwidth (hf : f.WellFormed) {linkColumn dataColumn : String} {kind : DataKind}
    (h : Link.bandwidth f linkColumn dataColumn kind = .ok g) : g.WellFormed := by
  unfold Link.bandwidth at h
  simp only [Except.bind_eq_ok] at h
  obtain ⟨_, _, _, _, h⟩ := h
  cases kind with
  | bitsPerSecond => exact hf.insertColumn (Except.mapError_eq_ok.1 h)
  | bytes =>
    simp only [Except.bind_eq_ok] at h
    obtain ⟨period, _, h⟩ := h
    cases period with
    | some period => exact hf.insertColumn (Except.mapError_eq_ok.1 h)
    | none => cases h

theorem WellFormed.utilization (hf : f.WellFormed) {linkColumn : String} {speeds : String → Option Double}
    (h : Link.utilization f linkColumn speeds = .ok g) : g.WellFormed := by
  unfold Link.utilization at h
  simp only [Except.bind_eq_ok] at h
  obtain ⟨_, _, _, _, h⟩ := h
  exact hf.insertColumn (Except.mapError_eq_ok.1 h)

end Derived

/-- The frames the library makes: the frame of an index, the frames decoded from partition
bytes, and whatever its operations make of frames it made. Rows are taken only at positions
inside the frame. -/
inductive Built : Frame → Prop where
  | ofIndex (index : Array Timestamp) : Built (Frame.ofIndex index)
  | decode {bytes : ByteArray} {h : PartitionHeader} {f : Frame} :
      PartitionCodec.decode bytes = .ok (h, f) → Built f
  | withIndexName {f : Frame} (name : String) : Built f → Built (f.withIndexName name)
  | insertColumn {f g : Frame} {name : String} {c : Column} :
      Built f → f.insertColumn name c = .ok g → Built g
  | takeRows {f : Frame} {rows : List Nat} : Built f → (∀ i ∈ rows, i < f.size) → Built (f.takeRows rows)
  | filterRange {f : Frame} (start stop : Timestamp) : Built f → Built (f.filterRange start stop)
  | sortByIndex {f : Frame} : Built f → Built f.sortByIndex
  | emptyLike {f : Frame} : Built f → Built f.emptyLike
  | concat {fs : List Frame} {g : Frame} : (∀ f ∈ fs, Built f) → Frame.concat fs = .ok (some g) → Built g
  | dedup {f g : Frame} {names : List String} : Built f → f.dedup names = .ok g → Built g
  | resample {f g : Frame} {linkColumn dataColumn : String} {resolution : TimeDelta} {kind : DataKind} :
      Built f → FrameCache.resample f linkColumn dataColumn resolution kind = .ok g → Built g
  | deriveLinkColumn {f g : Frame} {device interface link : String} :
      Built f → Link.deriveColumn f device interface link = .ok g → Built g
  | bandwidth {f g : Frame} {linkColumn dataColumn : String} {kind : DataKind} :
      Built f → Link.bandwidth f linkColumn dataColumn kind = .ok g → Built g
  | utilization {f g : Frame} {linkColumn : String} {speeds : String → Option Double} :
      Built f → Link.utilization f linkColumn speeds = .ok g → Built g

/-- Every frame the library makes is well formed: one case per way of making it, each closed
by what that operation keeps. -/
theorem Built.wellFormed {f : Frame} (h : Built f) : f.WellFormed := by
  induction h with
  | ofIndex index => exact wellFormed_ofIndex index
  | decode hd => exact wellFormed_decode hd
  | withIndexName name _ ih => exact ih.withIndexName name
  | insertColumn _ hins ih => exact ih.insertColumn hins
  | takeRows _ _ ih => exact ih.takeRows _
  | filterRange start stop _ ih => exact ih.filterRange start stop
  | sortByIndex _ ih => exact ih.sortByIndex
  | emptyLike _ ih => exact ih.emptyLike
  | concat _ hc ih => exact wellFormed_of_concat ih hc
  | dedup _ hd ih => exact ih.dedup hd
  | resample _ hr _ => exact wellFormed_resample hr
  | deriveLinkColumn _ hd ih => exact ih.deriveLinkColumn hd
  | bandwidth _ hb ih => exact ih.bandwidth hb
  | utilization _ hu ih => exact ih.utilization hu

/-- Every frame the library makes has one entry per row in each column and no two columns of
one name. Adding a column fails only when its length is not the index's, and then with that
error; adding a column under a name already there keeps every column in its place and puts the
new one under the name. -/
theorem built_wellFormed_insertColumn_in_place :
    (∀ f : Frame, Built f → f.WellFormed) ∧
    (∀ (f : Frame) (name : String) (c : Column) (e : FrameError),
      f.insertColumn name c = .error e ↔ c.size ≠ f.size ∧ e = .columnLength name f.size c.size) ∧
    (∀ (f g : Frame) (name : String) (c : Column), name ∈ f.columnNames →
      f.insertColumn name c = .ok g → g.columnNames = f.columnNames ∧ g.column name = .ok c) :=
  ⟨fun _ h => h.wellFormed, fun _ _ _ _ => insertColumn_eq_error_iff,
    fun _ _ _ _ hn h => ⟨columnNames_insertColumn_of_mem hn h, column_insertColumn h⟩⟩

/-- A one-row frame with a column of doubles, as adding that column to the frame of its index
makes it. -/
def oneRowFrame : Frame :=
  { index := #[Timestamp.epoch], columns := [("v", .float #[Double.zero])] }

theorem built_wellFormed_oneRowFrame : Built oneRowFrame ∧ oneRowFrame.WellFormed :=
  have hins : (ofIndex #[Timestamp.epoch]).insertColumn "v" (.float #[Double.zero]) = .ok oneRowFrame :=
    rfl
  have hb : Built oneRowFrame := .insertColumn (.ofIndex #[Timestamp.epoch]) hins
  ⟨hb, built_wellFormed_insertColumn_in_place.1 _ hb⟩

end Frame

end FrameCache
