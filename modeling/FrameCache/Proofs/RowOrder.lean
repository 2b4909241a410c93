import Mathlib
import FrameCache.Proofs.WellFormed
import FrameCache.Proofs.Listing

/-!
# Selecting and reordering rows

Every operation that moves rows does it with `Frame.takeRows`: the rows at a list of positions,
in that order, from the index and every column at once. Taking rows twice is taking them once
at the composed positions (`Frame.takeRows_takeRows`), and taking every row in order gives the
frame back when its columns are as long as its index (`Frame.takeRows_range`).

Sorting by time is such a selection: `Frame.sortByIndex` takes the rows at a permutation of the
positions along which the instants never go back, and rows at one instant keep their order
(`Frame.sortByIndex_takeRows`). The stability comes from merge sort itself: sorting a list whose
entries carry their own position leaves two entries that compare both ways in order of position
(`pairwise_mergeSort_stable`).
-/

namespace FrameCache

/-- Merge sort is stable: of a list whose entries know their own position, the sorted list
has every pair in order, and a pair that compares both ways in order of position. -/
theorem pairwise_mergeSort_stable {α : Type} (le : α → α → Bool) (pos : α → Nat)
    (trans : ∀ a b c, le a b → le b c → le a c) (total : ∀ a b, le a b || le b a)
    {l : List α} (hpos : ∀ x i, l[i]? = some x → pos x = i) :
    (l.mergeSort le).Pairwise fun a b => le a b ∧ (le b a → pos a ≤ pos b) := by
  rw [← List.mergeSort_zipIdx, List.pairwise_map]
  refine (List.pairwise_mergeSort (List.zipIdxLE_trans trans) (List.zipIdxLE_total total) _).imp_of_mem ?_
  intro x y hx hy hxy
  rw [List.mem_mergeSort, List.mem_zipIdx_iff_getElem?] at hx hy
  rw [hpos _ _ hx, hpos _ _ hy]
  simp only [List.zipIdxLE] at hxy
  split at hxy
  · rename_i hab
    refine ⟨hab, fun hba => ?_⟩
    simpa [hba] using hxy
  · cases hxy

namespace Timestamp

/-- Timestamps in a row never go back exactly when each is at or after the one before. -/
theorem zip_tail_all_iff_pairwise :
    ∀ ts : List Timestamp, ((ts.zip ts.tail).all fun p => p.1 ≤ p.2) = true ↔ ts.Pairwise (· ≤ ·)
  | [] => by simp
  | [a] => by simp
  | a :: b :: ts => by
    have ih := zip_tail_all_iff_pairwise (b :: ts)
    simp only [List.tail_cons, List.zip_cons_cons, List.all_cons, Bool.and_eq_true,
      decide_eq_true_eq] at ih ⊢
    rw [ih, List.pairwise_cons (l := b :: ts)]
    constructor
    · rintro ⟨hab, hrest⟩
      refine ⟨fun c hc => ?_, hrest⟩
      rcases List.mem_cons.1 hc with rfl | hc
      · exact hab
      · exact le_trans hab ((List.pairwise_cons.1 hrest).1 c hc)
    · rintro ⟨hall, hrest⟩
      exact ⟨hall b List.mem_cons_self, hrest⟩

end Timestamp

/-- Entries selected at positions `a`, then at positions `b` of the selection, are the entries
at the composed positions. -/
theorem select_select {β : Type} [Inhabited β] (vs : Array β) {a b : List Nat}
    (hb : ∀ i ∈ b, i < a.length) :
    b.toArray.map (fun i => (a.toArray.map fun j => vs.getD j default).getD i default) =
      (b.map (a.getD · 0)).toArray.map fun j => vs.getD j default := by
  simp only [List.map_toArray, List.map_map]
  congr 1
  refine List.map_congr_left fun i hi => ?_
  have hi := hb i hi
  simp [Array.getD_eq_getD_getElem?, hi, List.getD_eq_getElem?_getD]

/-- An entry of a selection is the entry at its position. -/
theorem getD_select {β : Type} [Inhabited β] (vs : Array β) {rows : List Nat} {i : Nat}
    (hi : i < rows.length) :
    (rows.toArray.map fun j => vs.getD j default).getD i default = vs.getD (rows.getD i 0) default := by
  simp [Array.getD_eq_getD_getElem?, hi, List.getD_eq_getElem?_getD]

/-- Selecting every position in order gives the entries back. -/
theorem select_range {β : Type} [Inhabited β] (vs : Array β) :
    (List.range vs.size).toArray.map (fun i => vs.getD i default) = vs := by
  simp only [Array.ext_iff, Array.size_map, List.size_toArray, List.length_range, true_and]
  intro i h₁ h₂
  simp [Array.getD_eq_getD_getElem?, Array.getElem?_eq_getElem h₂]

namespace Column

theorem takeRows_takeRows (c : Column) {a b : List Nat} (hb : ∀ i ∈ b, i < a.length) :
    (c.takeRows a).takeRows b = c.takeRows (b.map (a.getD · 0)) := by
  cases c <;> simp only [takeRows, select_select _ hb]

theorem takeRows_range (c : Column) : c.takeRows (List.range c.size) = c := by
  cases c <;> simp only [takeRows, size, select_range]

end Column

namespace Frame

variable {f : Frame}

/-- Taking rows of taken rows takes the rows at the composed positions. -/
theorem takeRows_takeRows (f : Frame) {a b : List Nat} (hb : ∀ i ∈ b, i < a.length) :
    (f.takeRows a).takeRows b = f.takeRows (b.map (a.getD · 0)) := by
  simp only [takeRows, List.map_map, select_select _ hb]
  congr 1
  refine List.map_congr_left fun m _ => ?_
  simp [Column.takeRows_takeRows _ hb]

/-- Taking every row in order gives the frame back, when its columns are as long as its
index. -/
theorem takeRows_range (hf : ∀ m ∈ f.columns, m.2.size = f.size) : f.takeRows (List.range f.size) = f := by
  obtain ⟨name, index, columns⟩ := f
  simp only [takeRows, size, select_range, Frame.mk.injEq, true_and]
  conv => rhs; rw [← List.map_id columns]
  refine List.map_congr_left fun m hm => ?_
  have hm := hf m hm
  simp only [size] at hm
  rw [← hm, Column.takeRows_range]
  rfl

/-- The sorted positions are a permutation of all positions, along which instants never go
back and rows at one instant keep their order. -/
theorem sortedRows_spec (f : Frame) :
    f.sortedRows.Perm (List.range f.size) ∧
    f.sortedRows.Pairwise fun i j => f.index.getD i default ≤ f.index.getD j default ∧
      (f.index.getD j default ≤ f.index.getD i default → i < j) := by
  have hperm := List.mergeSort_perm (List.range f.size)
    fun i j => decide (f.index.getD i default ≤ f.index.getD j default)
  refine ⟨hperm, ?_⟩
  have hstable := pairwise_mergeSort_stable (l := List.range f.size)
    (fun i j => decide (f.index.getD i default ≤ f.index.getD j default)) id
    (fun a b c hab hbc => by simp only [decide_eq_true_eq] at *; exact le_trans hab hbc)
    (fun a b => by simpa using Timestamp.le_total _ _)
    (fun x i h => by
      obtain ⟨hi, hx⟩ := List.getElem?_eq_some_iff.1 h
      simpa using hx.symm)
  have hnodup : f.sortedRows.Nodup := hperm.nodup_iff.2 List.nodup_range
  refine (hstable.and hnodup).imp fun ⟨⟨h₁, h₂⟩, hne⟩ => ⟨by simpa using h₁, fun h => ?_⟩
  have := h₂ (by simpa using h)
  simp only [id] at this
  omega

/-- Sorting rows taken in increasing order takes them at a permutation of those positions,
along which instants never go back and rows at one instant keep their order. -/
theorem sortByIndex_takeRows {R : List Nat} (hinc : R.Pairwise (· < ·)) :
    ∃ Q, (f.takeRows R).sortByIndex = f.takeRows Q ∧ Q.Perm R ∧
      Q.Pairwise fun i j => f.index.getD i default ≤ f.index.getD j default ∧
        (f.index.getD j default ≤ f.index.getD i default → i < j) := by
  have hget : ∀ p, p < R.length → (f.takeRows R).index.getD p default = f.index.getD (R.getD p 0) default :=
    fun _ hp => getD_select _ hp
  unfold sortByIndex
  split
  · -- already in order: the rows stay where they are
    rename_i hsorted
    refine ⟨R, rfl, List.Perm.refl R, ?_⟩
    have hpw := (Timestamp.zip_tail_all_iff_pairwise _).1 hsorted
    simp only [takeRows, Array.toList_map] at hpw
    rw [List.pairwise_map] at hpw
    exact (hpw.and hinc).imp fun h => ⟨h.1, fun _ => h.2⟩
  · -- the sorted positions of the selection, read back as rows of the frame
    obtain ⟨hperm, hpw⟩ := sortedRows_spec (f.takeRows R)
    have hsize : (f.takeRows R).size = R.length := size_takeRows f R
    rw [hsize] at hperm
    have hlt : ∀ p ∈ (f.takeRows R).sortedRows, p < R.length := fun p hp =>
      List.mem_range.1 (hperm.subset hp)
    refine ⟨(f.takeRows R).sortedRows.map (R.getD · 0), takeRows_takeRows f hlt, ?_, ?_⟩
    · have hR : (List.range R.length).map (R.getD · 0) = R := by
        apply List.ext_getElem (by simp)
        intro i h₁ h₂
        simp [List.getD_eq_getElem?_getD, h₂]
      have := hperm.map (R.getD · 0)
      rwa [hR] at this
    · rw [List.pairwise_map]
      refine hpw.imp_of_mem fun {p p'} hp hp' hpp => ?_
      obtain ⟨h₁, h₂⟩ := hpp
      have hp := hlt p hp
      have hp' := hlt p' hp'
      rw [hget p hp, hget p' hp'] at h₁ h₂
      refine ⟨h₁, fun h => ?_⟩
      have hpp' := h₂ h
      simp only [List.getD_eq_getElem?_getD, List.getElem?_eq_getElem hp,
        List.getElem?_eq_getElem hp', Option.getD_some]
      exact List.pairwise_iff_getElem.1 hinc p p' hp hp' hpp'

end Frame

end FrameCache
