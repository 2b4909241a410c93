import Mathlib
import FrameCache.Proofs.DropRange

/-!
# Partitions inside a window and partitions overlapping it

`Cache.filesInRange` selects the partitions of a window in two modes, after completing its
missing bounds with the oldest start and the newest end. Inside (`containedIn`) is closed at
both ends of the window. Overlapping (`overlaps`) is closed at the window's end and open at its
start: a partition that ends exactly where the window starts does not overlap it, so that
consecutive windows do not both claim it.

The two modes therefore agree except at the window's start. A partition inside the window
whose name is in time order overlaps it exactly when it ends after the completed start
(`overlaps_of_containedIn`). One that ends there, a partition of a single instant at the
start for instance, is inside but does not overlap; without bounds this is a partition of
one instant at the oldest start (`singleRow_inside_not_overlapping`).
-/

namespace FrameCache

namespace PartitionFile

/-- A partition inside `[start, stop]` whose name is in time order overlaps the window exactly
when it ends after `start`. -/
theorem overlaps_of_containedIn {p : PartitionFile} {start stop : Timestamp}
    (hc : p.containedIn start stop = true) (hp : p.start ≤ p.stop) :
    p.overlaps start stop = decide (start < p.stop) := by
  simp only [containedIn, Bool.and_eq_true, decide_eq_true_eq] at hc
  have hend : p.start ≤ stop := le_trans hp hc.2
  simp [overlaps, hend]

end PartitionFile

namespace Cache

variable {c : Cache} {s e : Option Timestamp}

/-- The partitions that overlap the window from `start` to `stop`, its missing bounds being the
oldest start and the newest end. -/
def overlapping (c : Cache) (start stop : Option Timestamp) : List PartitionFile :=
  match c.oldest, c.newest with
  | some o, some n => c.partitions.filter fun p => p.overlaps (start.getD o) (stop.getD n)
  | _, _ => []

/-- With bounds it accepts, the overlap mode lists the overlapping partitions. -/
theorem filesInRange_overlapping (h : ∀ a b, s = some a → e = some b → a < b) :
    c.filesInRange s e false = .ok (c.overlapping s e) := by
  have hrest : (match oldestOf c.partitions, newestOf c.partitions with
      | some o, some n => (pure (c.partitions.filter fun p =>
          if false = true then p.containedIn (s.getD o) (e.getD n) else p.overlaps (s.getD o) (e.getD n)) :
          Except CacheError (List PartitionFile))
      | _, _ => pure []) = .ok (c.overlapping s e) := by
    unfold overlapping oldest newest
    cases oldestOf c.partitions <;> cases newestOf c.partitions <;> rfl
  unfold Cache.filesInRange
  cases s <;> cases e
  case some.some a b =>
    simp only [if_neg (not_le_of_gt (h a b rfl rfl))]
    exact hrest
  all_goals simp only; exact hrest

/-- A listed partition overlaps the window exactly when it starts at or before the completed
end and ends after the completed start. -/
theorem mem_overlapping_iff {o n : Timestamp} (ho : c.oldest = some o) (hn : c.newest = some n)
    {p : PartitionFile} :
    p ∈ c.overlapping s e ↔ p ∈ c.partitions ∧ p.start ≤ e.getD n ∧ s.getD o < p.stop := by
  simp [overlapping, ho, hn, PartitionFile.overlaps]

/-- A listed partition gives the cache an oldest start and a newest end. -/
theorem exists_oldest_newest {p : PartitionFile} (hp : p ∈ c.partitions) :
    ∃ o n, c.oldest = some o ∧ c.newest = some n := by
  have hne : c.partitions ≠ [] := List.ne_nil_of_mem hp
  obtain ⟨o, ho⟩ := Option.ne_none_iff_exists'.1 (mt oldestOf_eq_none_iff.1 hne)
  obtain ⟨n, hn⟩ := Option.ne_none_iff_exists'.1 (mt newestOf_eq_none_iff.1 hne)
  exact ⟨o, n, ho, hn⟩

/-- A partition inside a window, with its name in time order, is also listed as overlapping the
window exactly when it ends after the window's start completed by the oldest start; without
bounds, the listed partitions in time order overlap exactly when they end after the oldest
start. -/
theorem filesInRange_overlapping_of_inside (c : Cache) (s e : Option Timestamp)
    (h : ∀ a b, s = some a → e = some b → a < b) :
    ∃ inside meeting, c.filesInRange s e true = .ok inside ∧ c.filesInRange s e false = .ok meeting ∧
      (∀ p ∈ inside, p.start ≤ p.stop → ∃ o, c.oldest = some o ∧ (p ∈ meeting ↔ s.getD o < p.stop)) ∧
      ∃ all, c.filesInRange none none false = .ok all ∧
        ∀ p ∈ c.partitions, p.start ≤ p.stop → ∃ o, c.oldest = some o ∧ (p ∈ all ↔ o < p.stop) := by
  refine ⟨_, _, filesInRange_contained h, filesInRange_overlapping h, fun p hp hord => ?_,
    _, filesInRange_overlapping (fun _ _ h => nomatch h), fun p hp hord => ?_⟩
  · have hlisted := (List.mem_filter.1 hp).1
    obtain ⟨o, n, ho, hn⟩ := exists_oldest_newest hlisted
    obtain ⟨-, hlo, hhi⟩ := (mem_within_iff ho hn).1 hp
    refine ⟨o, ho, ?_⟩
    rw [mem_overlapping_iff ho hn]
    have hend : p.start ≤ e.getD n := le_trans hord hhi
    simp only [hlisted, hend, true_and]
  · obtain ⟨o, n, ho, hn⟩ := exists_oldest_newest hp
    refine ⟨o, ho, ?_⟩
    rw [mem_overlapping_iff ho hn]
    have hend : p.start ≤ n := le_trans hord (le_newestOf hn p hp)
    simp only [Option.getD_none, hp, hend, true_and]

/-- 2023-11-14T22:13:20Z. -/
def sampleInstant : Timestamp := (Timestamp.ofParts? 1700000000 0 .utc).getD default

/-- The name of a partition of that single instant. -/
def singleRowName : String := "2023-11-14T22:13:20+00:00_2023-11-14T22:13:20+00:00.chunk"

def singleRowPartition : PartitionFile := ⟨singleRowName, sampleInstant, sampleInstant⟩

/-- A cache holding one partition of a single row. -/
def singleRowCache : Cache where
  root := "cache"
  files := ⟨[(singleRowName, .file ByteArray.empty)]⟩
  emptyLookback := TimeDelta.zero

theorem partitions_singleRowCache : singleRowCache.partitions = [singleRowPartition] := by
  have hx : extensionOf? singleRowName = some Partition.extension := by decide
  have hp : Partition.parseName? singleRowName = some (sampleInstant, sampleInstant) := by rfl
  simp [partitions, singleRowCache, singleRowPartition, hx, hp]

/-- A second after `sampleInstant`. -/
def secondLater : Timestamp := (Timestamp.ofParts? 1700000001 0 .utc).getD default

theorem filesInRange_overlapping_of_inside_singleRow :
    (∀ a b, some sampleInstant = some a → some secondLater = some b → a < b) ∧
    ∃ inside meeting, singleRowCache.filesInRange (some sampleInstant) (some secondLater) true = .ok inside ∧
      singleRowCache.filesInRange (some sampleInstant) (some secondLater) false = .ok meeting ∧
      (∀ p ∈ inside, p.start ≤ p.stop → ∃ o, singleRowCache.oldest = some o ∧
        (p ∈ meeting ↔ (some sampleInstant).getD o < p.stop)) ∧
      ∃ all, singleRowCache.filesInRange none none false = .ok all ∧
        ∀ p ∈ singleRowCache.partitions, p.start ≤ p.stop →
          ∃ o, singleRowCache.oldest = some o ∧ (p ∈ all ↔ o < p.stop) :=
  have h : ∀ a b, some sampleInstant = some a → some secondLater = some b → a < b := by
    rintro a b ⟨⟩ ⟨⟩
    decide
  ⟨h, filesInRange_overlapping_of_inside singleRowCache _ _ h⟩

/-- The partition of a single instant is inside the whole cache but does not overlap it: the
window without bounds runs from that instant to itself, and the partition does not end after
its start. -/
theorem singleRow_inside_not_overlapping :
    singleRowCache.partitions = [singleRowPartition] ∧
    singleRowCache.filesInRange none none true = .ok [singleRowPartition] ∧
    singleRowCache.filesInRange none none false = .ok [] := by
  have hover : singleRowCache.overlapping none none = [] := by
    simp [overlapping, oldest, newest, partitions_singleRowCache, oldestOf, newestOf,
      singleRowPartition, PartitionFile.overlaps]
  refine ⟨partitions_singleRowCache, ?_, ?_⟩
  · rw [filesInRange_contained (by simp), within_none_none, partitions_singleRowCache]
  · rw [filesInRange_overlapping (by simp), hover]

end Cache

end FrameCache
