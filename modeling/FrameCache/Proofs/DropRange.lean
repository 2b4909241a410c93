import Mathlib
import FrameCache.Proofs.Listing

/-!
# Dropping a window of partitions

`Cache.dropRange` removes the partitions that lie inside a window and counts them; `clear`
drops the window without bounds. A window whose end is not after its start is refused before
anything is looked up or removed (`dropRange_of_le`). Otherwise the window's missing bounds are
the oldest start and the newest end, which hold every partition, so the partitions removed are
exactly those within the bounds actually given (`Cache.within`); they are removed one
after another, and every other entry of the directory stays where it was (`dropRange_within`).
Clearing therefore removes every partition and leaves an empty listing (`clear_eq`).

The directory must be one a file system can hold (`Directory.Valid`): with distinct legal
names, every listed partition is a file that its removal finds.
-/

namespace FrameCache

namespace Cache

/-- The cache with the entries of the given partitions removed from its directory. -/
def without (c : Cache) (ps : List PartitionFile) : Cache :=
  { c with files := c.files.without (ps.map (·.name)) }

theorem onFiles_ok (path : String) (step : Directory → Except IoFailure Directory) {c : Cache}
    {d : Directory} (h : step c.files = .ok d) : onFiles path step c = .ok () { c with files := d } := by
  simp [onFiles, getThe, MonadStateOf.get, EStateM.get, bind, EStateM.bind, h, set, EStateM.set]

/-- One round of the removal loop of `dropRange`. -/
def removeStep (path : String → String) (p : PartitionFile) (_ : PUnit) : CacheM (ForInStep PUnit) := do
  onFiles (path p.name) (fun x => x.removeFile p.name)
  pure (ForInStep.yield PUnit.unit)

/-- Removing files of distinct names, each found in the directory, removes exactly them. -/
theorem forIn_removeStep (path : String → String) (ps : List PartitionFile) (c : Cache)
    (hv : c.files.Valid) (hnd : (ps.map (·.name)).Nodup)
    (hf : ∀ p ∈ ps, ∃ data, c.files.lookup? p.name = some (.file data)) :
    forIn ps PUnit.unit (removeStep path) c = .ok PUnit.unit (c.without ps) := by
  induction ps generalizing c with
  | nil =>
    simp only [List.forIn_nil, without, List.map_nil, Directory.without_nil]
    rfl
  | cons p ps ih =>
    obtain ⟨data, hp⟩ := hf p List.mem_cons_self
    have hrm : c.files.removeFile p.name = .ok (c.files.erase p.name) :=
      Directory.removeFile_eq_ok_iff.2
        ⟨hv.legal _ (Directory.mem_of_lookup?_eq_some hp), ⟨data, hp⟩, rfl⟩
    obtain ⟨hp_ps, hnd_ps⟩ := List.nodup_cons.1 hnd
    -- the rest of the list is still found once `p` is gone, its names being other than `p`'s
    have hf_ps : ∀ q ∈ ps, ∃ data, (c.files.erase p.name).lookup? q.name = some (.file data) := by
      intro q hq
      have hne : q.name ≠ p.name := by
        rintro h
        exact hp_ps (List.mem_map.2 ⟨q, hq, h⟩)
      simpa [hne] using hf q (List.mem_cons_of_mem _ hq)
    rw [List.forIn_cons]
    simp only [removeStep, bind, EStateM.bind, onFiles_ok _ (fun x => x.removeFile p.name) hrm]
    show forIn ps PUnit.unit (removeStep path) { c with files := c.files.erase p.name } = _
    rw [ih _ hv.erase hnd_ps hf_ps]
    simp only [without, List.map_cons, Directory.without_cons]

/-- `dropRange` removes what the window's lookup found, one partition after another. -/
theorem dropRange_of_filesInRange {c : Cache} {s e : Option Timestamp} {ps : List PartitionFile}
    (h : c.filesInRange s e true = .ok ps) :
    dropRange s e c = match forIn ps PUnit.unit (removeStep c.pathOf) c with
      | .ok _ c' => .ok ps.length c'
      | .error err c' => .error err c' := by
  simp only [dropRange, getThe, MonadStateOf.get, EStateM.get, bind, EStateM.bind, h]
  show EStateM.bind (forIn ps PUnit.unit (removeStep c.pathOf)) (fun _ => pure ps.length) c = _
  simp only [EStateM.bind]
  cases forIn ps PUnit.unit (removeStep c.pathOf) c <;> rfl

/-- A window whose end is not after its start is refused, and nothing is removed. -/
theorem dropRange_of_le {c : Cache} {a b : Timestamp} (hba : b ≤ a) :
    dropRange (some a) (some b) c = .error (.invalidTimeRange a b) c := by
  simp only [dropRange, getThe, MonadStateOf.get, EStateM.get, bind, EStateM.bind,
    filesInRange_of_le rfl rfl hba]
  rfl

/-- Any other window removes exactly the partitions within it and counts them. -/
theorem dropRange_within {c : Cache} {s e : Option Timestamp} (hv : c.files.Valid)
    (h : ∀ a b, s = some a → e = some b → a < b) :
    dropRange s e c = .ok (c.within s e).length (c.without (c.within s e)) := by
  have hnd : ((c.within s e).map (·.name)).Nodup :=
    (nodup_partitions_name hv).sublist (List.filter_sublist.map _)
  have hf : ∀ p ∈ c.within s e, ∃ data, c.files.lookup? p.name = some (.file data) := by
    intro p hp
    obtain ⟨data, hm, -⟩ := mem_partitions.1 (List.mem_of_mem_filter hp)
    exact ⟨data, Directory.lookup?_of_mem hv.nodup hm⟩
  rw [dropRange_of_filesInRange (filesInRange_contained h), forIn_removeStep c.pathOf _ c hv hnd hf]

/-- Without bounds, every partition is within the window. -/
@[simp] theorem within_none_none (c : Cache) : c.within none none = c.partitions := by
  simp [within]

/-- After removing some partitions, the listing holds exactly the others. -/
theorem mem_partitions_without {c : Cache} {ps : List PartitionFile} {p : PartitionFile} :
    p ∈ (c.without ps).partitions ↔ p ∈ c.partitions ∧ p.name ∉ ps.map (·.name) := by
  simp only [mem_partitions, without, Directory.without, List.mem_filter, decide_eq_true_eq]
  constructor
  · rintro ⟨data, ⟨hm, hn⟩, hx, hp⟩
    exact ⟨⟨data, hm, hx, hp⟩, hn⟩
  · rintro ⟨⟨data, hm, hx, hp⟩, hn⟩
    exact ⟨data, ⟨hm, hn⟩, hx, hp⟩

/-- Clearing removes every partition, counts them, and leaves every other entry. -/
theorem clear_eq {c : Cache} (hv : c.files.Valid) :
    clear c = .ok c.partitions.length (c.without c.partitions) := by
  rw [clear, dropRange_within hv (by simp), within_none_none]

/-- Once every partition is removed, none is listed. -/
theorem partitions_without_partitions (c : Cache) : (c.without c.partitions).partitions = [] := by
  apply List.eq_nil_iff_forall_not_mem.2
  intro p hp
  obtain ⟨hp, hn⟩ := mem_partitions_without.1 hp
  exact hn (List.mem_map_of_mem hp)


/-- With the oldest start and the newest end as defaults for missing bounds, the partitions
within a window are those inside the window with its bounds so completed. -/
theorem mem_within_iff {c : Cache} {s e : Option Timestamp} {o n : Timestamp} (ho : c.oldest = some o)
    (hn : c.newest = some n) {p : PartitionFile} :
    p ∈ c.within s e ↔ p ∈ c.partitions ∧ s.getD o ≤ p.start ∧ p.stop ≤ e.getD n := by
  unfold within
  rw [List.mem_filter]
  constructor
  · rintro ⟨hp, hb⟩
    have := containedIn_getD (s := s) (e := e) ho hn hp
    simp only [PartitionFile.containedIn, hb, Bool.and_eq_true, decide_eq_true_eq] at this
    exact ⟨hp, this⟩
  · rintro ⟨hp, hlo, hhi⟩
    refine ⟨hp, ?_⟩
    rw [← containedIn_getD ho hn hp]
    simp [PartitionFile.containedIn, hlo, hhi]

/-- What dropping the window from `start` to `stop` does to a cache. -/
structure DropsWithin (c : Cache) (start stop : Option Timestamp) : Prop where
  /-- A window with both bounds and its end not after its start is refused; nothing changes. -/
  refused : ∀ a b, start = some a → stop = some b → b ≤ a →
    dropRange start stop c = .error (.invalidTimeRange a b) c
  /-- Any other window removes the partitions within it, counts them, and leaves every other
  entry of the directory where it was. -/
  removes : (∀ a b, start = some a → stop = some b → a < b) →
    dropRange start stop c = .ok (c.within start stop).length (c.without (c.within start stop))
  /-- The partitions within the window are those inside it once its missing bounds are the
  oldest start and the newest end. -/
  defaults : ∀ o n, c.oldest = some o → c.newest = some n → ∀ p,
    p ∈ c.within start stop ↔ p ∈ c.partitions ∧ start.getD o ≤ p.start ∧ p.stop ≤ stop.getD n
  /-- A removed partition's rows that lie in its named interval lie in the completed window. -/
  rows : ∀ o n, c.oldest = some o → c.newest = some n → ∀ p ∈ c.within start stop, ∀ h f,
    c.read p.name = .ok (h, f) → (∀ t ∈ f.index, p.start ≤ t ∧ t ≤ p.stop) →
    ∀ t ∈ f.index, start.getD o ≤ t ∧ t ≤ stop.getD n

/-- What clearing does to a cache. -/
structure ClearsAll (c : Cache) : Prop where
  /-- Every partition is removed and counted; every other entry stays where it was. -/
  removes : clear c = .ok c.partitions.length (c.without c.partitions)
  /-- Nothing is listed afterwards. -/
  empty : (c.without c.partitions).partitions = []
  no_oldest : (c.without c.partitions).oldest = none
  no_newest : (c.without c.partitions).newest = none

/-- Dropping a window removes exactly the partitions within it, in any directory a file system
can hold, whatever else it contains: files of other extensions, names that do not read as
two timestamps, subdirectories, temporary files. A window with its end not after its start
is refused before anything is removed; clearing removes every partition and nothing else. -/
theorem dropRange_removes_within (c : Cache) (hv : c.files.Valid) (s e : Option Timestamp) :
    DropsWithin c s e ∧ ClearsAll c := by
  refine ⟨⟨?_, dropRange_within hv, fun o n ho hn p => mem_within_iff ho hn, ?_⟩, ?_⟩
  · rintro a b rfl rfl hba
    exact dropRange_of_le hba
  · intro o n ho hn p hp h f _ hrows t ht
    obtain ⟨-, hlo, hhi⟩ := (mem_within_iff ho hn).1 hp
    exact ⟨hlo.trans (hrows t ht).1, (hrows t ht).2.trans hhi⟩
  · have hempty := partitions_without_partitions c
    exact ⟨clear_eq hv, hempty, by rw [oldest, hempty]; rfl, by rw [newest, hempty]; rfl⟩


/-- A directory with a partition of one second, a foreign file, a subdirectory and a leftover
temporary file. -/
def foreignEntries : Cache where
  root := "cache"
  files := ⟨[("2023-11-14T22:13:20+00:00_2023-11-14T22:13:21+00:00.chunk", .file ByteArray.empty),
    ("notes.txt", .file ByteArray.empty), ("sub", .folder), (".a.chunk.tmp", .file ByteArray.empty)]⟩
  emptyLookback := TimeDelta.zero

theorem dropRange_removes_within_foreign :
    foreignEntries.files.Valid ∧ (foreignEntries.within none none).length = 1 ∧
      DropsWithin foreignEntries none none ∧ ClearsAll foreignEntries := by
  have hv : foreignEntries.files.Valid := by
    constructor
    · decide
    · simp only [foreignEntries, List.mem_cons, List.not_mem_nil, or_false, forall_eq_or_imp,
        forall_eq, Directory.checkName_eq_ok_iff]
      exact ⟨⟨by simp, by decide⟩, ⟨by simp, by decide⟩, ⟨by simp, by decide⟩, ⟨by simp, by decide⟩⟩
  -- the partition is the one entry listed, and the window without bounds holds it
  have hone : (foreignEntries.within none none).length = 1 := by
    have hx : extensionOf? "2023-11-14T22:13:20+00:00_2023-11-14T22:13:21+00:00.chunk" =
        some Partition.extension := by decide
    obtain ⟨st, hst⟩ : ∃ st,
        Partition.parseName? "2023-11-14T22:13:20+00:00_2023-11-14T22:13:21+00:00.chunk" = some st :=
      ⟨_, rfl⟩
    have hnotes : extensionOf? "notes.txt" ≠ some Partition.extension := by decide
    have htmp : extensionOf? ".a.chunk.tmp" ≠ some Partition.extension := by decide
    simp [partitions, foreignEntries, hx, hst, hnotes, htmp]
  exact ⟨hv, hone, dropRange_removes_within foreignEntries hv none none⟩

end Cache

end FrameCache
