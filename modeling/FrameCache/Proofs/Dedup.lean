import Mathlib
import FrameCache.Proofs.RowOrder

/-!
# Removing repeated rows

`Frame.dedup` keeps, of the rows that share a key, the first, and sorts what it keeps by time.
This module proves it does exactly that. A key is read from the named columns, or from the
index and every column when no name is given; a name that is a column reads the column even
when it is also the index's name, and a name that is neither fails the whole call with
`missingColumn` for the first such name. Two keys are the same when their instants are, their
doubles are (every NaN the same, `-0.0` the same as `0.0`, other doubles by their bits) and their
texts are (`Frame.sameKey`).

The rows kept are exactly the first of each key (`Frame.firstOccurrences`). The model finds them
by sorting the rows stably by key and keeping the first of each run: sorting puts rows of one
key next to each other, in the order they came (`pairwise_mergeSort_stable`), so the first of a
run is the earliest row of its key (`mem_runHeads`). Sorting the kept rows by time then permutes
them stably (`Frame.sortByIndex_takeRows`). From there: no two kept rows share a key, every
key is kept once, and a second pass finds nothing more to remove.
-/

namespace FrameCache

namespace Instant

theorem cmp_eq_compareLex : Instant.cmp = compareLex (compareOn Instant.second) (compareOn Instant.nano) :=
  rfl

instance : Std.OrientedCmp Instant.cmp := by rw [cmp_eq_compareLex]; infer_instance

instance : Std.TransCmp Instant.cmp := by rw [cmp_eq_compareLex]; infer_instance

instance : Std.LawfulEqCmp Instant.cmp where
  eq_of_compare {a b} h := by
    rw [cmp_eq_compareLex, compareLex_eq_eq] at h
    have hs : a.second = b.second := Std.LawfulEqOrd.eq_of_compare h.1
    have hn : a.nano = b.nano := Std.LawfulEqOrd.eq_of_compare h.2
    cases a
    cases b
    simp_all

end Instant

namespace KeyPart

instance : Std.OrientedCmp KeyPart.compare where
  eq_swap {a b} := by
    -- parts of different sorts are ordered by sort; parts of one sort by their own order
    cases a <;> cases b <;> simp only [KeyPart.compare, Ordering.swap_lt, Ordering.swap_gt]
    all_goals exact Std.OrientedCmp.eq_swap

instance : Std.TransCmp KeyPart.compare where
  isLE_trans {a b c} hab hbc := by
    cases a <;> cases b <;> cases c <;>
      simp only [KeyPart.compare, Ordering.isLE_lt, Ordering.isLE_gt, Bool.false_eq_true] at hab hbc ⊢
    all_goals exact Std.TransCmp.isLE_trans hab hbc

instance : Std.LawfulEqCmp KeyPart.compare where
  eq_of_compare {a b} h := by
    cases a <;> cases b <;> simp only [KeyPart.compare, reduceCtorEq] at h
    all_goals rw [Std.LawfulEqCmp.eq_of_compare h]

theorem compareKeys_eq_compareLex : compareKeys = List.compareLex KeyPart.compare := by
  funext as bs
  induction as generalizing bs with
  | nil => cases bs <;> rfl
  | cons a as ih =>
    cases bs with
    | nil => rfl
    | cons b bs =>
      rw [compareKeys, List.compareLex, ih]
      cases KeyPart.compare a b <;> rfl

theorem compareKeys_le_trans {a b c : List KeyPart} (hab : compareKeys a b ≠ .gt)
    (hbc : compareKeys b c ≠ .gt) : compareKeys a c ≠ .gt := by
  simp only [compareKeys_eq_compareLex, ne_eq, Ordering.ne_gt_iff_isLE] at *
  exact Std.TransCmp.isLE_trans hab hbc

theorem compareKeys_total (a b : List KeyPart) : compareKeys a b ≠ .gt ∨ compareKeys b a ≠ .gt := by
  rw [compareKeys_eq_compareLex]
  by_cases h : List.compareLex KeyPart.compare a b = .gt
  · right
    rw [Std.OrientedCmp.gt_iff_lt] at h
    rw [h]
    decide
  · exact .inl h

theorem compareKeys_self (a : List KeyPart) : compareKeys a a = .eq := by
  rw [compareKeys_eq_compareLex]
  exact Std.ReflCmp.compare_self

/-- Keys that each lie at or below the other are equal. -/
theorem eq_of_compareKeys {a b : List KeyPart} (hab : compareKeys a b ≠ .gt) (hba : compareKeys b a ≠ .gt) :
    a = b := by
  rw [compareKeys_eq_compareLex] at hab hba
  rw [Ne, Std.OrientedCmp.gt_iff_lt] at hba
  have heq : List.compareLex KeyPart.compare a b = .eq := by
    cases h : List.compareLex KeyPart.compare a b
    · exact absurd h hba
    · rfl
    · exact absurd h hab
  exact Std.LawfulEqCmp.eq_of_compare heq

end KeyPart

section Runs

variable {α : Type} [DecidableEq α]

/-- The rows of a list of keyed rows whose key differs from the key before them; `o` is the
key before the first. -/
def runHeads : Option α → List (α × Nat) → List Nat
  | _, [] => []
  | o, (k, r) :: rest => if o = some k then runHeads (some k) rest else r :: runHeads (some k) rest

theorem runHeads_sublist : ∀ (o : Option α) (L : List (α × Nat)), (runHeads o L).Sublist (L.map (·.2))
  | _, [] => .slnil
  | o, (k, r) :: rest => by
    unfold runHeads
    split
    · exact (runHeads_sublist _ rest).cons _
    · exact (runHeads_sublist _ rest).cons_cons _

/-- In a list sorted by key in which rows of one key come in increasing order, a row starts a
run exactly when it is the earliest row of its key, and its key is not the one before the list.
The order `le` need only be antisymmetric. -/
theorem mem_runHeads (le : α → α → Prop) (antisymm : ∀ a b, le a b → le b a → a = b) :
    ∀ {L : List (α × Nat)} {o : Option α},
      L.Pairwise (fun a b => le a.1 b.1 ∧ (a.1 = b.1 → a.2 < b.2)) →
      (∀ k₀, o = some k₀ → ∀ y ∈ L, le k₀ y.1) →
      ∀ r, r ∈ runHeads o L ↔ ∃ k, (k, r) ∈ L ∧ o ≠ some k ∧ ∀ r', (k, r') ∈ L → r ≤ r' := by
  intro L
  induction L with
  | nil => intro o _ _ r; simp [runHeads]
  | cons x rest ih =>
    obtain ⟨k, r⟩ := x
    intro o hL ho r₀
    rw [List.pairwise_cons] at hL
    obtain ⟨hx, hrest⟩ := hL
    have ih := ih (o := some k) hrest (fun k₀ hk y hy => by
      obtain rfl := Option.some.inj hk
      exact (hx y hy).1) r₀
    -- a row of the rest with the key `k` comes after `(k, r)`, so it never starts a run
    have least : ∀ {k' r'}, (k', r') ∈ rest → k' ≠ k → (∀ r'', (k', r'') ∈ rest → r' ≤ r'') →
        ∀ r'', (k', r'') ∈ (k, r) :: rest → r' ≤ r'' := by
      intro k' r' _ hne hmin r'' hr''
      rcases List.mem_cons.1 hr'' with h | h
      · cases h
        exact absurd rfl hne
      · exact hmin r'' h
    -- a row of the rest that starts a run after `k` has another key than the one before `k`
    have fresh : ∀ {k' r'}, (k', r') ∈ rest → k' ≠ k → o ≠ some k' := by
      rintro k' r' hmem hne rfl
      exact hne (antisymm _ _ (ho k' rfl (k, r) List.mem_cons_self) (hx _ hmem).1)
    unfold runHeads
    constructor
    · intro hmem
      have tail : r₀ ∈ runHeads (some k) rest →
          ∃ k', (k', r₀) ∈ (k, r) :: rest ∧ o ≠ some k' ∧ ∀ r', (k', r') ∈ (k, r) :: rest → r₀ ≤ r' := by
        intro h
        obtain ⟨k', hk', hne, hmin⟩ := ih.1 h
        have hne : k' ≠ k := fun h => hne (by rw [h])
        exact ⟨k', List.mem_cons_of_mem _ hk', fresh hk' hne, least hk' hne hmin⟩
      split at hmem
      · exact tail hmem
      · rename_i hok
        rcases List.mem_cons.1 hmem with rfl | h
        · refine ⟨k, List.mem_cons_self, hok, fun r' hr' => ?_⟩
          rcases List.mem_cons.1 hr' with h | h
          · cases h
            exact Nat.le_refl _
          · exact Nat.le_of_lt ((hx _ h).2 rfl)
        · exact tail h
    · rintro ⟨k', hk', hok, hmin⟩
      rcases List.mem_cons.1 hk' with h | h
      · -- the first row starts a run unless its key is the one before
        cases h
        rw [if_neg hok]
        exact List.mem_cons_self
      · have hne : k' ≠ k := by
          rintro rfl
          exact absurd (hmin r List.mem_cons_self) (Nat.not_le_of_lt ((hx _ h).2 rfl))
        have hrest : r₀ ∈ runHeads (some k) rest :=
          ih.2 ⟨k', h, fun h' => hne (Option.some.inj h').symm, fun r' hr' =>
            hmin r' (List.mem_cons_of_mem _ hr')⟩
        split
        · exact hrest
        · exact List.mem_cons_of_mem _ hrest

end Runs

/-- The first-of-run fold of `Frame.firstOfEachKey`, from any state: the rows it keeps come
after those it started with, latest first. -/
theorem foldl_firstOfRun (L : List (List KeyPart × Nat)) (o : Option (List KeyPart)) (xs : List Nat) :
    (L.foldl (fun (acc : Option (List KeyPart) × List Nat) (k, row) =>
      if acc.1 == some k then acc else (some k, row :: acc.2)) (o, xs)).2 =
      (runHeads o L).reverse ++ xs := by
  induction L generalizing o xs with
  | nil => rfl
  | cons x rest ih =>
    obtain ⟨k, r⟩ := x
    rw [List.foldl_cons, runHeads]
    by_cases h : o = some k
    · simp only [h, beq_self_eq_true, if_true]
      exact ih _ _
    · have hb : (o == some k) = false := by simpa using h
      simp only [hb, if_false, Bool.false_eq_true, h, List.reverse_cons, List.append_assoc,
        List.singleton_append]
      exact ih _ _

/-- Sorting the numbered keys stably by key leaves rows of one key in the order they came. -/
theorem pairwise_sortByKey (keys : List (List KeyPart)) :
    (keys.zipIdx.mergeSort fun a b => KeyPart.compareKeys a.1 b.1 != .gt).Pairwise fun a b =>
      KeyPart.compareKeys a.1 b.1 ≠ .gt ∧ (a.1 = b.1 → a.2 < b.2) := by
  let le : List KeyPart × Nat → List KeyPart × Nat → Bool := fun a b => KeyPart.compareKeys a.1 b.1 != .gt
  have hstable := pairwise_mergeSort_stable (l := keys.zipIdx) le (·.2)
    (fun a b c hab hbc => by
      simp only [le, bne_iff_ne] at *
      exact KeyPart.compareKeys_le_trans hab hbc)
    (fun a b => by
      simpa only [le, Bool.or_eq_true, bne_iff_ne] using KeyPart.compareKeys_total a.1 b.1)
    (fun x i h => by
      rw [List.getElem?_zipIdx] at h
      obtain ⟨a, -, rfl⟩ := Option.map_eq_some_iff.1 h
      simp)
  -- the row numbers are distinct, so two rows of one key are in strictly increasing order
  have hnodup : ((keys.zipIdx.mergeSort le).map (·.2)).Nodup := by
    rw [((List.mergeSort_perm _ _).map _).nodup_iff, List.zipIdx_map_snd]
    exact List.nodup_range'
  rw [List.Nodup, List.pairwise_map] at hnodup
  refine (hstable.and hnodup).imp fun {a b} ⟨⟨h₁, h₂⟩, hne⟩ => ⟨by simpa [le] using h₁, fun heq => ?_⟩
  have hcmp : le b a = true := by
    simp [le, heq, KeyPart.compareKeys_self]
  exact Nat.lt_of_le_of_ne (h₂ hcmp) hne

/-- The rows `firstOfEachKey` keeps are those whose key no earlier row has, in order. -/
theorem firstOfEachKey_eq (keys : List (List KeyPart)) :
    Frame.firstOfEachKey keys =
      (List.range keys.length).filter fun r => (List.range r).all fun r' => keys[r']? != keys[r]? := by
  let S := keys.zipIdx.mergeSort fun a b => KeyPart.compareKeys a.1 b.1 != .gt
  have hperm : S.Perm keys.zipIdx := List.mergeSort_perm _ _
  have hmem : ∀ r, r ∈ runHeads none S ↔
      r ∈ (List.range keys.length).filter fun r => (List.range r).all fun r' => keys[r']? != keys[r]? := by
    intro r
    rw [mem_runHeads (fun a b => KeyPart.compareKeys a b ≠ .gt)
      (fun a b => KeyPart.eq_of_compareKeys) (pairwise_sortByKey keys) (by simp)]
    simp only [ne_eq, reduceCtorEq, not_false_eq_true, true_and, List.mem_mergeSort,
      List.mem_zipIdx_iff_getElem?, List.mem_filter, List.mem_range, List.all_eq_true,
      bne_iff_ne]
    constructor
    · rintro ⟨k, hk, hmin⟩
      refine ⟨(List.getElem?_eq_some_iff.1 hk).1, fun r' hr' heq => ?_⟩
      exact absurd (hmin r' (heq.trans hk)) (Nat.not_le_of_lt hr')
    · rintro ⟨hr, hfirst⟩
      refine ⟨keys[r], List.getElem?_eq_getElem hr, fun r' hr' => ?_⟩
      by_contra hlt
      exact hfirst r' (Nat.lt_of_not_le hlt) (hr'.trans (List.getElem?_eq_getElem hr).symm)
  unfold Frame.firstOfEachKey
  simp only
  rw [foldl_firstOfRun, List.append_nil]
  -- both sides list the same rows in increasing order
  have hleft := List.pairwise_mergeSort' (· ≤ ·) (runHeads none S).reverse
  have hright := ((List.pairwise_lt_range (n := keys.length)).filter
    fun r => (List.range r).all fun r' => keys[r']? != keys[r]?).imp Nat.le_of_lt
  refine List.Perm.eq_of_pairwise (fun _ _ _ _ => Nat.le_antisymm) hleft hright ?_
  · refine (List.mergeSort_perm _ _).trans ((List.reverse_perm _).trans ?_)
    refine (List.perm_ext_iff_of_nodup ?_ ?_).2 hmem
    · exact (runHeads_sublist _ _).nodup (by
        rw [(hperm.map _).nodup_iff, List.zipIdx_map_snd]
        exact List.nodup_range')
    · exact List.nodup_range.filter _

namespace Double

/-- Two doubles are the same key when both are NaN, both are zeros of either sign, or they
have the same bits. -/
def sameKey (x y : Double) : Bool := (x.isNaN && y.isNaN) || (x.isZero && y.isZero) || x == y

theorem bits_inj {x y : Double} : x.bits = y.bits ↔ x = y := by
  cases x
  cases y
  simp

theorem isNaN_eq_false_of_isZero {x : Double} (h : x.isZero = true) : x.isNaN = false := by
  simp only [isNaN, isZero, Bool.and_eq_true, beq_iff_eq] at *
  simp only [Bool.and_eq_false_iff, beq_eq_false_iff_ne]
  omega

theorem isNaN_canonical (x : Double) : x.canonical.isNaN = x.isNaN := by
  unfold canonical
  split
  · rename_i h
    rw [h]
    decide
  · split
    · rename_i h₁ _
      rw [Bool.not_eq_true] at h₁
      rw [h₁]
      decide
    · rfl

theorem isZero_canonical (x : Double) : x.canonical.isZero = x.isZero := by
  unfold canonical
  split
  · rename_i h
    have : x.isZero = false := by
      cases hz : x.isZero
      · rfl
      · rw [isNaN_eq_false_of_isZero hz] at h
        cases h
    rw [this]
    decide
  · split
    · rename_i h
      rw [h]
      decide
    · rfl

theorem canonical_of_not_isNaN_of_not_isZero {x : Double} (hn : x.isNaN = false)
    (hz : x.isZero = false) : x.canonical = x := by
  simp [canonical, hn, hz]

/-- Canonical forms agree exactly when the doubles are the same key. -/
theorem canonical_eq_iff_sameKey {x y : Double} : x.canonical = y.canonical ↔ x.sameKey y = true := by
  unfold sameKey
  constructor
  · intro h
    have hn : x.isNaN = y.isNaN := by rw [← isNaN_canonical, h, isNaN_canonical]
    have hz : x.isZero = y.isZero := by rw [← isZero_canonical, h, isZero_canonical]
    cases hxn : x.isNaN
    · cases hxz : x.isZero
      · -- neither NaN nor zero: the canonical forms are the doubles themselves
        rw [canonical_of_not_isNaN_of_not_isZero hxn hxz,
          canonical_of_not_isNaN_of_not_isZero (hn ▸ hxn) (hz ▸ hxz)] at h
        simp [h]
      · simp [← hz, hxz]
    · simp [← hn, hxn]
  · simp only [Bool.or_eq_true, Bool.and_eq_true, beq_iff_eq]
    rintro ((⟨hx, hy⟩ | ⟨hx, hy⟩) | rfl)
    · simp [canonical, hx, hy]
    · simp [canonical, isNaN_eq_false_of_isZero hx, isNaN_eq_false_of_isZero hy, hx, hy]
    · rfl

end Double

namespace Column

/-- Whether the entries of a column at two rows are the same key. -/
def sameAt : Column → Nat → Nat → Bool
  | .float vs, r, r' => (vs.getD r default).sameKey (vs.getD r' default)
  | .text vs, r, r' => vs.getD r default == vs.getD r' default

theorem sameAt_takeRows (c : Column) {rows : List Nat} {i j : Nat} (hi : i < rows.length)
    (hj : j < rows.length) :
    (c.takeRows rows).sameAt i j = c.sameAt (rows.getD i 0) (rows.getD j 0) := by
  cases c <;> simp only [takeRows, sameAt, getD_select _ hi, getD_select _ hj]

end Column

namespace Frame

variable {f : Frame} {names : List String} {r r' : Nat}

/-- Whether a key name reads a column, or else the index. -/
def resolves (f : Frame) (n : String) : Bool := f.hasColumn n || n == f.indexName

/-- Whether two rows are at one instant, whatever their offsets. -/
def sameInstant (f : Frame) (r r' : Nat) : Bool :=
  (f.index.getD r default).instant == (f.index.getD r' default).instant

/-- Whether two rows agree on the key named `n`: on the first column of that name, or on the
index when no column has it. -/
def sameEntry (f : Frame) (n : String) (r r' : Nat) : Bool :=
  match f.columns.find? (·.1 == n) with
  | some (_, c) => c.sameAt r r'
  | none => f.sameInstant r r'

/-- Whether two rows have the same key: they agree on every named entry, or on the index and
every column when no name is given. -/
def sameKey (f : Frame) (names : List String) (r r' : Nat) : Bool :=
  if names.isEmpty then f.sameInstant r r' && f.columns.all fun m => m.2.sameAt r r'
  else names.all fun n => f.sameEntry n r r'

/-- The rows whose key no earlier row has, in row order. -/
def firstOccurrences (f : Frame) (names : List String) : List Nat :=
  (List.range f.size).filter fun r => (List.range r).all fun r' => !f.sameKey names r' r

/-- Where the key named `n` is read from, whether or not the name resolves. -/
def keySourceOf (f : Frame) (n : String) : KeySource :=
  match f.columns.find? (·.1 == n) with
  | some (_, c) => .column c
  | none => .index

/-- The sources of a key, whether or not its names resolve. -/
def keySourcesOf (f : Frame) (names : List String) : List KeySource :=
  if names.isEmpty then .index :: f.columns.map fun (_, c) => .column c
  else names.map f.keySourceOf

theorem keyPart_index_eq_iff : f.keyPart r .index = f.keyPart r' .index ↔ f.sameInstant r r' = true := by
  simp [keyPart, sameInstant]

theorem keyPart_column_eq_iff (c : Column) :
    f.keyPart r (.column c) = f.keyPart r' (.column c) ↔ c.sameAt r r' = true := by
  cases c with
  | float vs =>
    simp only [keyPart, KeyPart.float.injEq, Double.bits_inj, Column.sameAt]
    exact Double.canonical_eq_iff_sameKey
  | text vs => simp [keyPart, Column.sameAt]

theorem keyPart_keySourceOf_eq_iff (n : String) :
    f.keyPart r (f.keySourceOf n) = f.keyPart r' (f.keySourceOf n) ↔ f.sameEntry n r r' = true := by
  unfold keySourceOf sameEntry
  split
  · exact keyPart_column_eq_iff _
  · exact keyPart_index_eq_iff

/-- Two rows have the same key exactly when the key parts the model reads for them are equal. -/
theorem sameKey_iff_keyParts_eq :
    f.sameKey names r r' = true ↔
      (f.keySourcesOf names).map (f.keyPart r) = (f.keySourcesOf names).map (f.keyPart r') := by
  unfold sameKey keySourcesOf
  split
  · simp only [List.map_cons, List.cons.injEq, List.map_map, Bool.and_eq_true, keyPart_index_eq_iff,
      List.all_eq_true, List.map_inj_left, Function.comp_def, keyPart_column_eq_iff]
  · simp only [List.map_map, List.all_eq_true, List.map_inj_left, Function.comp_def,
      keyPart_keySourceOf_eq_iff]

theorem sameKey_refl (f : Frame) (names : List String) (r : Nat) : f.sameKey names r r = true :=
  sameKey_iff_keyParts_eq.2 rfl

theorem sameKey_comm (f : Frame) (names : List String) (r r' : Nat) :
    f.sameKey names r r' = f.sameKey names r' r := by
  rw [Bool.eq_iff_iff, sameKey_iff_keyParts_eq, sameKey_iff_keyParts_eq, eq_comm]

theorem sameKey_trans {r'' : Nat} (h₁ : f.sameKey names r r' = true) (h₂ : f.sameKey names r' r'' = true) :
    f.sameKey names r r'' = true := by
  rw [sameKey_iff_keyParts_eq] at *
  exact h₁.trans h₂

/-! ### Resolving key names -/

/-- One step of `keySources`: a name that resolves gives its source, any other name
`missingColumn`. -/
theorem keySource_step (n : String) :
    (if f.hasColumn n then KeySource.column <$> f.column n
      else if n == f.indexName then .ok .index else .error (.missingColumn n) :
        Except FrameError KeySource) =
      if f.resolves n then .ok (f.keySourceOf n) else .error (.missingColumn n) := by
  unfold resolves keySourceOf column hasColumn
  cases hfind : f.columns.find? (·.1 == n) with
  | some m =>
    obtain ⟨a, c⟩ := m
    have hany : f.columns.any (·.1 == n) = true := by
      have hp := List.find?_some hfind
      rw [List.any_eq_true]
      exact ⟨_, List.mem_of_find?_eq_some hfind, hp⟩
    simp [hany]
  | none =>
    have hany : f.columns.any (·.1 == n) = false := by
      rw [List.find?_eq_none] at hfind
      simpa using hfind
    simp [hany]

theorem keySources_eq_mapM (h : names.isEmpty = false) :
    f.keySources names = names.mapM fun n =>
      if f.resolves n then .ok (f.keySourceOf n) else .error (.missingColumn n) := by
  unfold keySources
  simp only [h, Bool.false_eq_true, if_false, keySource_step]

/-- When every name resolves, the key is read from the sources of `keySourcesOf`. -/
theorem keySources_eq_ok (h : ∀ n ∈ names, f.resolves n = true) :
    f.keySources names = .ok (f.keySourcesOf names) := by
  cases hne : names.isEmpty
  · rw [keySources_eq_mapM hne, keySourcesOf, if_neg (by simp [hne])]
    exact mapM_eq_ok_map fun n hn => by rw [if_pos (h n hn)]
  · simp [keySources, keySourcesOf, hne]

/-- The first name that does not resolve is the one reported missing. -/
theorem keySources_eq_error {n : String} (h : names.find? (fun n => !f.resolves n) = some n) :
    f.keySources names = .error (.missingColumn n) := by
  have hne : names.isEmpty = false := by
    cases names with
    | nil => cases h
    | cons => rfl
  rw [keySources_eq_mapM hne]
  clear hne
  induction names with
  | nil => cases h
  | cons a rest ih =>
    rw [List.mapM_cons]
    by_cases ha : f.resolves a = true
    · rw [List.find?_cons_of_neg (by simp [ha])] at h
      simp only [if_pos ha, ih h]
      rfl
    · rw [List.find?_cons_of_pos (by simpa using ha)] at h
      obtain rfl := Option.some.inj h
      simp only [if_neg ha]
      rfl

/-! ### Keys of taken rows -/

theorem sameInstant_takeRows (f : Frame) {rows : List Nat} {i j : Nat} (hi : i < rows.length)
    (hj : j < rows.length) :
    (f.takeRows rows).sameInstant i j = f.sameInstant (rows.getD i 0) (rows.getD j 0) := by
  simp only [sameInstant, takeRows, getD_select _ hi, getD_select _ hj]

theorem find?_takeRows_columns (f : Frame) (rows : List Nat) (n : String) :
    (f.takeRows rows).columns.find? (·.1 == n) =
      (f.columns.find? (·.1 == n)).map fun m => (m.1, m.2.takeRows rows) := by
  simp only [takeRows, List.find?_map]
  rfl

theorem sameKey_takeRows (f : Frame) {rows : List Nat} {i j : Nat} (hi : i < rows.length)
    (hj : j < rows.length) :
    (f.takeRows rows).sameKey names i j = f.sameKey names (rows.getD i 0) (rows.getD j 0) := by
  have hentry : ∀ n, (f.takeRows rows).sameEntry n i j = f.sameEntry n (rows.getD i 0) (rows.getD j 0) := by
    intro n
    unfold sameEntry
    rw [find?_takeRows_columns]
    cases f.columns.find? (·.1 == n) with
    | some m => simp only [Option.map_some, Column.sameAt_takeRows _ hi hj]
    | none => exact sameInstant_takeRows f hi hj
  unfold sameKey
  split
  · rw [sameInstant_takeRows f hi hj]
    congr 1
    simp only [takeRows, List.all_map, Function.comp_def, Column.sameAt_takeRows _ hi hj]
  · simp only [hentry]

theorem resolves_takeRows (f : Frame) (rows : List Nat) (n : String) :
    (f.takeRows rows).resolves n = f.resolves n := by
  simp [resolves, hasColumn, takeRows, Function.comp_def]

/-! ### The first occurrences -/

theorem mem_firstOccurrences :
    r ∈ f.firstOccurrences names ↔ r < f.size ∧ ∀ r' < r, f.sameKey names r' r = false := by
  simp [firstOccurrences]

theorem firstOccurrences_pairwise :
    (f.firstOccurrences names).Pairwise fun i j => i < j ∧ f.sameKey names i j = false :=
  (List.pairwise_lt_range.filter _).imp_of_mem fun _ hj hlt =>
    ⟨hlt, (mem_firstOccurrences.1 hj).2 _ hlt⟩

/-- Every row has a first occurrence of its key: the earliest row with that key. -/
theorem exists_firstOccurrence (hr : r < f.size) :
    ∃ i ∈ f.firstOccurrences names, f.sameKey names i r = true ∧
      ∀ r' < i, f.sameKey names r' r = false := by
  have hex : ∃ i, f.sameKey names i r = true := ⟨r, sameKey_refl f names r⟩
  have hle : Nat.find hex ≤ r := Nat.find_min' hex (sameKey_refl f names r)
  refine ⟨Nat.find hex, mem_firstOccurrences.2 ⟨by omega, fun r' hr' => ?_⟩, Nat.find_spec hex,
    fun r' hr' => by simpa using Nat.find_min hex hr'⟩
  -- an earlier row with the key of the earliest would be an earlier row with the key of `r`
  cases h : f.sameKey names r' (Nat.find hex)
  · rfl
  · exact absurd (sameKey_trans h (Nat.find_spec hex)) (Nat.find_min hex hr')

/-- Two first occurrences of one key are one row. -/
theorem eq_of_mem_firstOccurrences {i j : Nat} (hi : i ∈ f.firstOccurrences names)
    (hj : j ∈ f.firstOccurrences names) (h : f.sameKey names i j = true) : i = j := by
  rw [mem_firstOccurrences] at hi hj
  rcases Nat.lt_trichotomy i j with hlt | heq | hgt
  · rw [hj.2 i hlt] at h
    cases h
  · exact heq
  · rw [sameKey_comm, hi.2 j hgt] at h
    cases h

/-- Of rows with pairwise distinct keys, each is the first occurrence of its key. -/
theorem firstOccurrences_takeRows {rows : List Nat}
    (hrows : rows.Pairwise fun i j => f.sameKey names i j = false) :
    (f.takeRows rows).firstOccurrences names = List.range rows.length := by
  unfold firstOccurrences
  rw [size_takeRows]
  refine List.filter_eq_self.2 fun r hr => ?_
  rw [List.mem_range] at hr
  simp only [List.all_eq_true, List.mem_range, Bool.not_eq_eq_eq_not, Bool.not_true]
  intro r' hr'
  rw [sameKey_takeRows f (by omega) hr]
  simp only [List.getD_eq_getElem?_getD, List.getElem?_eq_getElem hr,
    List.getElem?_eq_getElem (Nat.lt_trans hr' hr), Option.getD_some]
  exact List.pairwise_iff_getElem.1 hrows r' r _ hr hr'

/-! ### What `dedup` returns -/

/-- The fold of `firstOfEachKey` over the keys of the rows keeps the rows whose key no earlier
row has. -/
theorem firstOfEachKey_map_range (key : Nat → List KeyPart) (n : Nat) :
    firstOfEachKey ((List.range n).map key) =
      (List.range n).filter fun r => (List.range r).all fun r' => key r' != key r := by
  rw [firstOfEachKey_eq, List.length_map, List.length_range]
  refine List.filter_congr fun r hr => ?_
  rw [List.mem_range] at hr
  rw [Bool.eq_iff_iff, List.all_eq_true, List.all_eq_true]
  refine forall₂_congr fun r' hr' => ?_
  rw [List.mem_range] at hr'
  rw [List.getElem?_map, List.getElem?_map, List.getElem?_range hr,
    List.getElem?_range (Nat.lt_trans hr' hr)]
  simp

theorem sortByIndex_eq_self (h : f.index.toList.Pairwise (· ≤ ·)) : f.sortByIndex = f := by
  have hsorted : f.isSorted = true := (Timestamp.zip_tail_all_iff_pairwise _).2 h
  rw [sortByIndex, if_pos hsorted]

theorem dedup_eq_ok (h : ∀ n ∈ names, f.resolves n = true) :
    f.dedup names = .ok (f.takeRows (f.firstOccurrences names)).sortByIndex := by
  unfold dedup
  rw [keySources_eq_ok h]
  show Except.ok (f.takeRows (firstOfEachKey _)).sortByIndex = _
  rw [firstOfEachKey_map_range]
  congr 3
  refine List.filter_congr fun r _ => ?_
  congr 1
  funext r'
  rw [Bool.eq_iff_iff, bne_iff_ne, Bool.not_eq_true', ne_eq, ← sameKey_iff_keyParts_eq,
    Bool.not_eq_true]

theorem dedup_eq_error {n : String} (h : names.find? (fun n => !f.resolves n) = some n) :
    f.dedup names = .error (.missingColumn n) := by
  unfold dedup
  rw [keySources_eq_error h]
  rfl

/-- `dedup` fails with the first name that is neither a column nor the index. Otherwise it
takes the first occurrence of each key, stably sorted by instant: no two rows it keeps share a
key, each row's key is kept once, at the earliest row that has it, and a second pass returns
the result unchanged. -/
theorem dedup_keeps_first_of_each_key (f : Frame) (names : List String) :
    (∀ n, names.find? (fun n => !f.resolves n) = some n →
      f.dedup names = .error (.missingColumn n)) ∧
    ((∀ n ∈ names, f.resolves n = true) →
      ∃ Q, f.dedup names = .ok (f.takeRows Q) ∧
        Q.Perm (f.firstOccurrences names) ∧
        Q.Pairwise (fun i j => f.index.getD i default ≤ f.index.getD j default ∧
          (f.index.getD j default ≤ f.index.getD i default → i < j)) ∧
        Q.Pairwise (fun i j => f.sameKey names i j = false) ∧
        (∀ r < f.size, ∃ i ∈ Q, f.sameKey names i r = true ∧
          (∀ r' < i, f.sameKey names r' r = false) ∧
          ∀ j ∈ Q, f.sameKey names j r = true → j = i) ∧
        (f.takeRows Q).dedup names = .ok (f.takeRows Q)) := by
  refine ⟨fun n h => dedup_eq_error h, fun h => ?_⟩
  have hfirst : (f.firstOccurrences names).Pairwise fun i j => i < j ∧ f.sameKey names i j = false :=
    firstOccurrences_pairwise
  obtain ⟨Q, hsort, hperm, horder⟩ := sortByIndex_takeRows (f := f) (hfirst.imp And.left)
  have hdistinct : Q.Pairwise fun i j => f.sameKey names i j = false :=
    hperm.symm.pairwise (hfirst.imp And.right) fun hij => by
      rwa [sameKey_comm]
  refine ⟨Q, by rw [dedup_eq_ok h, hsort], hperm, horder, hdistinct, fun r hr => ?_, ?_⟩
  · obtain ⟨i, hi, hsame, hfirst⟩ := @exists_firstOccurrence f names r hr
    refine ⟨i, hperm.mem_iff.2 hi, hsame, hfirst, fun j hj hjr => ?_⟩
    have hji : f.sameKey names j i = true := sameKey_trans hjr (by rwa [sameKey_comm])
    exact eq_of_mem_firstOccurrences (hperm.mem_iff.1 hj) hi hji
  · -- the kept rows have distinct keys and are in time order: a second pass keeps them all in place
    have hres : ∀ n ∈ names, (f.takeRows Q).resolves n = true := fun n hn => by
      rw [resolves_takeRows]
      exact h n hn
    have hsorted : (f.takeRows Q).index.toList.Pairwise (· ≤ ·) := by
      simp only [takeRows, Array.toList_map, List.pairwise_map]
      exact horder.imp And.left
    rw [dedup_eq_ok hres, firstOccurrences_takeRows hdistinct, ← size_takeRows f Q,
      takeRows_range (sizes_takeRows f Q), sortByIndex_eq_self hsorted]

/-- Two rows at one instant whose values are `0.0` and `-0.0`: one key. -/
def signedZeroRows : Frame :=
  { index := #[Timestamp.epoch, Timestamp.epoch],
    columns := [("v", .float #[Double.zero, Double.negZero])] }

theorem dedup_signedZeroRows :
    (∀ n ∈ ["v"], signedZeroRows.resolves n = true) ∧
      ∃ Q, signedZeroRows.dedup ["v"] = .ok (signedZeroRows.takeRows Q) ∧
        Q.Perm (signedZeroRows.firstOccurrences ["v"]) := by
  have hres : ∀ n ∈ ["v"], signedZeroRows.resolves n = true := by decide
  obtain ⟨Q, hQ, hperm, -⟩ := (dedup_keeps_first_of_each_key signedZeroRows ["v"]).2 hres
  exact ⟨hres, Q, hQ, hperm⟩

example : signedZeroRows.firstOccurrences ["v"] = [0] := by decide

end Frame

end FrameCache
