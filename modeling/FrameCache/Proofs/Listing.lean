import Mathlib
import FrameCache.Proofs.Directory
import FrameCache.Store.Cache

/-!
# The listing of a cache

Timestamps are ordered by instant: by second, then by nanosecond part, whatever their
offsets. This order is a total preorder (`Timestamp.le_total`); two timestamps at one instant
and different offsets lie below each other without being equal.

The partitions of a cache are its files whose extension is the partition extension and whose
names read as two timestamps (`mem_partitions`); in a directory a file system can hold, no
two of them share a name (`nodup_partitions_name`). The cache's oldest timestamp is the least
start of a partition and its newest the greatest end (`oldestOf_le`, `oldestOf_mem`,
`le_newestOf`, `newestOf_mem`). So when a bound of a window is left out, the default it takes
holds every partition on that side, and the partitions inside the window are those that
respect the bounds actually given (`Cache.within`, `filesInRange_contained`).
-/

namespace FrameCache

namespace Timestamp

variable {a b c x : Timestamp}

theorem lt_iff : a < b ↔ a.second < b.second ∨ a.second = b.second ∧ a.nano < b.nano := Iff.rfl

theorem le_iff : a ≤ b ↔ a.second < b.second ∨ a.second = b.second ∧ a.nano ≤ b.nano := by
  show ¬ b < a ↔ _
  rw [lt_iff]
  omega

theorem not_lt_iff : ¬ a < b ↔ b ≤ a := Iff.rfl

instance : Preorder Timestamp where
  le_refl a := by rw [le_iff]; omega
  le_trans a b c := by simp only [le_iff]; omega
  lt_iff_le_not_ge a b := by simp only [lt_iff, le_iff]; omega

theorem le_total (a b : Timestamp) : a ≤ b ∨ b ≤ a := by
  simp only [le_iff]
  omega

theorem lt_or_le (a b : Timestamp) : a < b ∨ b ≤ a := by
  simp only [lt_iff, le_iff]
  omega

theorem le_later_left : a ≤ a.later b := by
  unfold later
  split
  · exact le_rfl
  · next h => exact not_lt_iff.1 h

theorem le_later_right : b ≤ a.later b := by
  unfold later
  split
  · next h => exact le_of_lt h
  · exact le_rfl

theorem later_eq_or : a.later b = a ∨ a.later b = b := by
  unfold later
  split
  · exact Or.inl rfl
  · exact Or.inr rfl

theorem earlier_le_left : a.earlier b ≤ a := by
  unfold earlier
  split
  · next h => exact le_of_lt h
  · exact le_rfl

theorem earlier_le_right : a.earlier b ≤ b := by
  unfold earlier
  split
  · exact le_rfl
  · next h => exact not_lt_iff.1 h

theorem earlier_eq_or : a.earlier b = a ∨ a.earlier b = b := by
  unfold earlier
  split
  · exact Or.inr rfl
  · exact Or.inl rfl

end Timestamp

section Bounds

variable {ps : List PartitionFile} {o n : Timestamp}

/-- One step of the fold that finds the oldest start. -/
def earliestStart (m : Option Timestamp) (p : PartitionFile) : Option Timestamp :=
  some (match m with
    | some t => t.earlier p.start
    | none => p.start)

theorem oldestOf_eq_foldl : oldestOf ps = ps.foldl earliestStart none := rfl

theorem earliestStart_none (p : PartitionFile) : earliestStart none p = some p.start := rfl

theorem foldl_earliestStart (ps : List PartitionFile) (t : Timestamp) :
    ∃ o, ps.foldl earliestStart (some t) = some o ∧ o ≤ t ∧ (∀ p ∈ ps, o ≤ p.start) ∧
      (o = t ∨ ∃ p ∈ ps, p.start = o) := by
  induction ps generalizing t with
  | nil => exact ⟨t, rfl, le_rfl, by simp, Or.inl rfl⟩
  | cons p ps ih =>
    obtain ⟨o, ho, hle, hall, hmem⟩ := ih (t.earlier p.start)
    refine ⟨o, ho, hle.trans Timestamp.earlier_le_left, ?_, ?_⟩
    · intro q hq
      rcases List.mem_cons.1 hq with rfl | hq
      · exact hle.trans Timestamp.earlier_le_right
      · exact hall q hq
    · rcases hmem with rfl | ⟨q, hq, rfl⟩
      · rcases Timestamp.earlier_eq_or (a := t) (b := p.start) with h | h
        · exact Or.inl h
        · exact Or.inr ⟨p, List.mem_cons_self, h.symm⟩
      · exact Or.inr ⟨q, List.mem_cons_of_mem _ hq, rfl⟩

theorem oldestOf_eq_none_iff : oldestOf ps = none ↔ ps = [] := by
  cases ps with
  | nil => exact ⟨fun _ => rfl, fun _ => rfl⟩
  | cons p ps =>
    obtain ⟨o, ho, -⟩ := foldl_earliestStart ps p.start
    rw [oldestOf_eq_foldl, List.foldl_cons, earliestStart_none, ho]
    simp

/-- The oldest timestamp is at or before every start. -/
theorem oldestOf_le (h : oldestOf ps = some o) : ∀ p ∈ ps, o ≤ p.start := by
  cases ps with
  | nil => cases h
  | cons p ps =>
    obtain ⟨o', ho, hle, hall, -⟩ := foldl_earliestStart ps p.start
    rw [oldestOf_eq_foldl, List.foldl_cons, earliestStart_none, ho, Option.some_inj] at h
    subst h
    intro q hq
    rcases List.mem_cons.1 hq with rfl | hq
    · exact hle
    · exact hall q hq

/-- The oldest timestamp is the start of a partition. -/
theorem oldestOf_mem (h : oldestOf ps = some o) : ∃ p ∈ ps, p.start = o := by
  cases ps with
  | nil => cases h
  | cons p ps =>
    obtain ⟨o', ho, -, -, hmem⟩ := foldl_earliestStart ps p.start
    rw [oldestOf_eq_foldl, List.foldl_cons, earliestStart_none, ho, Option.some_inj] at h
    subst h
    rcases hmem with h | ⟨q, hq, h⟩
    · exact ⟨p, List.mem_cons_self, h.symm⟩
    · exact ⟨q, List.mem_cons_of_mem _ hq, h⟩

/-- One step of the fold that finds the newest end. -/
def latestStop (m : Option Timestamp) (p : PartitionFile) : Option Timestamp :=
  some (match m with
    | some t => t.later p.stop
    | none => p.stop)

theorem newestOf_eq_foldl : newestOf ps = ps.foldl latestStop none := rfl

theorem latestStop_none (p : PartitionFile) : latestStop none p = some p.stop := rfl

theorem foldl_latestStop (ps : List PartitionFile) (t : Timestamp) :
    ∃ n, ps.foldl latestStop (some t) = some n ∧ t ≤ n ∧ (∀ p ∈ ps, p.stop ≤ n) ∧
      (n = t ∨ ∃ p ∈ ps, p.stop = n) := by
  induction ps generalizing t with
  | nil => exact ⟨t, rfl, le_rfl, by simp, Or.inl rfl⟩
  | cons p ps ih =>
    obtain ⟨n, hn, hge, hall, hmem⟩ := ih (t.later p.stop)
    refine ⟨n, hn, Timestamp.le_later_left.trans hge, ?_, ?_⟩
    · intro q hq
      rcases List.mem_cons.1 hq with rfl | hq
      · exact Timestamp.le_later_right.trans hge
      · exact hall q hq
    · rcases hmem with rfl | ⟨q, hq, rfl⟩
      · rcases Timestamp.later_eq_or (a := t) (b := p.stop) with h | h
        · exact Or.inl h
        · exact Or.inr ⟨p, List.mem_cons_self, h.symm⟩
      · exact Or.inr ⟨q, List.mem_cons_of_mem _ hq, rfl⟩

theorem newestOf_eq_none_iff : newestOf ps = none ↔ ps = [] := by
  cases ps with
  | nil => exact ⟨fun _ => rfl, fun _ => rfl⟩
  | cons p ps =>
    obtain ⟨n, hn, -⟩ := foldl_latestStop ps p.stop
    rw [newestOf_eq_foldl, List.foldl_cons, latestStop_none, hn]
    simp

/-- The newest timestamp is at or after every end. -/
theorem le_newestOf (h : newestOf ps = some n) : ∀ p ∈ ps, p.stop ≤ n := by
  cases ps with
  | nil => cases h
  | cons p ps =>
    obtain ⟨n', hn, hge, hall, -⟩ := foldl_latestStop ps p.stop
    rw [newestOf_eq_foldl, List.foldl_cons, latestStop_none, hn, Option.some_inj] at h
    subst h
    intro q hq
    rcases List.mem_cons.1 hq with rfl | hq
    · exact hge
    · exact hall q hq

/-- The newest timestamp is the end of a partition. -/
theorem newestOf_mem (h : newestOf ps = some n) : ∃ p ∈ ps, p.stop = n := by
  cases ps with
  | nil => cases h
  | cons p ps =>
    obtain ⟨n', hn, -, -, hmem⟩ := foldl_latestStop ps p.stop
    rw [newestOf_eq_foldl, List.foldl_cons, latestStop_none, hn, Option.some_inj] at h
    subst h
    rcases hmem with h | ⟨q, hq, h⟩
    · exact ⟨p, List.mem_cons_self, h.symm⟩
    · exact ⟨q, List.mem_cons_of_mem _ hq, h⟩

end Bounds


section Partitions

variable {c : Cache} {p : PartitionFile}

/-- The partition an entry of a directory is, if any: a file whose extension is the partition
extension and whose name reads as two timestamps. -/
def partitionOf? : String × Entry → Option PartitionFile := fun (name, e) =>
  match e with
  | .file _ =>
    if extensionOf? name == some Partition.extension then
      (Partition.parseName? name).map fun (s, t) => ⟨name, s, t⟩
    else none
  | .folder => none

theorem partitions_eq : c.partitions = (c.files.entries.filterMap partitionOf?).mergeSort PartitionFile.before :=
  rfl

theorem partitionOf?_eq_some_iff {m : String × Entry} :
    partitionOf? m = some p ↔ ∃ data, m = (p.name, .file data) ∧
      extensionOf? p.name = some Partition.extension ∧ Partition.parseName? p.name = some (p.start, p.stop) := by
  obtain ⟨name, e⟩ := m
  cases e with
  | folder => simp [partitionOf?]
  | file data =>
    obtain ⟨pn, ps, pt⟩ := p
    by_cases hx : extensionOf? name = some Partition.extension
    · simp only [partitionOf?, hx, beq_self_eq_true, if_true, Option.map_eq_some_iff, Prod.exists,
        PartitionFile.mk.injEq, Prod.mk.injEq, Entry.file.injEq]
      constructor
      · rintro ⟨s, t, hst, rfl, rfl, rfl⟩
        exact ⟨data, ⟨rfl, rfl⟩, hx, hst⟩
      · rintro ⟨d, ⟨rfl, rfl⟩, -, hst⟩
        exact ⟨ps, pt, hst, rfl, rfl, rfl⟩
    · simp only [partitionOf?, Prod.mk.injEq, Entry.file.injEq]
      rw [if_neg (by simpa using hx)]
      simp only [reduceCtorEq, false_iff, not_exists, not_and]
      rintro d ⟨rfl, rfl⟩ hx'
      exact absurd hx' hx

/-- The partitions are the files of partition extension whose names read as two timestamps. -/
theorem mem_partitions : p ∈ c.partitions ↔ ∃ data, (p.name, .file data) ∈ c.files.entries ∧
    extensionOf? p.name = some Partition.extension ∧ Partition.parseName? p.name = some (p.start, p.stop) := by
  rw [partitions_eq, List.mem_mergeSort, List.mem_filterMap]
  constructor
  · rintro ⟨m, hm, hp⟩
    obtain ⟨data, rfl, hx, hn⟩ := partitionOf?_eq_some_iff.1 hp
    exact ⟨data, hm, hx, hn⟩
  · rintro ⟨data, hm, hx, hn⟩
    exact ⟨_, hm, partitionOf?_eq_some_iff.2 ⟨data, rfl, hx, hn⟩⟩

theorem map_filterMap_sublist {α β γ : Type} {f : α → Option β} {g : β → γ} {h : α → γ}
    (hf : ∀ a b, f a = some b → g b = h a) (l : List α) : ((l.filterMap f).map g).Sublist (l.map h) := by
  induction l with
  | nil => exact List.Sublist.slnil
  | cons a l ih =>
    rw [List.filterMap_cons]
    cases hfa : f a with
    | none => exact ih.cons _
    | some b =>
      rw [List.map_cons, List.map_cons, hf a b hfa]
      exact ih.cons_cons _

/-- In a directory a file system can hold, no two partitions share a name. -/
theorem nodup_partitions_name (hv : c.files.Valid) : (c.partitions.map (·.name)).Nodup := by
  rw [partitions_eq]
  apply ((List.mergeSort_perm _ _).map _).nodup_iff.2
  refine List.Nodup.sublist ?_ hv.nodup
  apply map_filterMap_sublist
  intro m q hq
  obtain ⟨data, rfl, -⟩ := partitionOf?_eq_some_iff.1 hq
  rfl

end Partitions

section Range

variable {c : Cache} {s e : Option Timestamp}

/-- The partitions that start at or after `start` and end at or before `stop`; a missing
bound holds every partition. -/
def Cache.within (c : Cache) (start stop : Option Timestamp) : List PartitionFile :=
  c.partitions.filter fun p => start.all (· ≤ p.start) && stop.all (p.stop ≤ ·)

/-- A window with both bounds given and its end not after its start is refused. -/
theorem filesInRange_of_le {a b : Timestamp} (hs : s = some a) (he : e = some b) (hba : b ≤ a)
    (contained : Bool) : c.filesInRange s e contained = .error (.invalidTimeRange a b) := by
  subst hs he
  simp only [Cache.filesInRange, hba, if_true]
  rfl

/-- A partition lies inside a window whose missing bounds are the oldest start and the newest
end exactly when it respects the bounds that are given. -/
theorem containedIn_getD {ps : List PartitionFile} {o n : Timestamp} (ho : oldestOf ps = some o)
    (hn : newestOf ps = some n) {p : PartitionFile} (hp : p ∈ ps) :
    p.containedIn (s.getD o) (e.getD n) = (s.all (· ≤ p.start) && e.all (p.stop ≤ ·)) := by
  have hlo := oldestOf_le ho p hp
  have hhi := le_newestOf hn p hp
  cases s <;> cases e <;> simp [PartitionFile.containedIn, hlo, hhi]

/-- Inside a window, a missing bound holds every partition: the partitions inside are those
that start at or after the given start and end at or before the given end. -/
theorem filesInRange_contained (h : ∀ a b, s = some a → e = some b → a < b) :
    c.filesInRange s e true = .ok (c.within s e) := by
  unfold Cache.filesInRange
  cases s <;> cases e
  case' some.some a b => simp only [if_neg (not_le_of_gt (h a b rfl rfl))]
  all_goals simp only [if_true]
  -- past the check of the bounds: the partitions between the ends, a missing end defaulted
  all_goals
    split
    · next o n ho hn =>
      show Except.ok _ = _
      rw [List.filter_congr fun p hp => containedIn_getD ho hn hp]
      rfl
    · next hne =>
      have hnil : c.partitions = [] := by
        cases ho : oldestOf c.partitions with
        | none => exact oldestOf_eq_none_iff.1 ho
        | some o =>
          cases hn : newestOf c.partitions with
          | none => exact newestOf_eq_none_iff.1 hn
          | some n => exact (hne o n ho hn).elim
      simp only [Cache.within, hnil, List.filter_nil]
      rfl

end Range

end FrameCache
