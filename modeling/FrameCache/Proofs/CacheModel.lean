import Mathlib
import FrameCache.Proofs.Listing

/-!
# The cache as a map from names to frames

`FrameMap` is a cache seen through what it stores: each partition name with the frame under it.
Its operations say what the cache's operations do, with no bytes, no names read back and no
choice of which partitions to open:
* storing puts the frame under the name of its first and last timestamps (`FrameMap.store`);
* dropping a window erases the entries whose partition lies inside it, its missing bounds being
  the earliest start and the latest end (`FrameMap.dropRange`);
* the partitions are the entries' names with the first and last timestamps of their frames,
  ordered by start, end and name (`FrameMap.partitions`);
* a read joins every stored frame in that order and keeps the rows of the window, sorted by
  time and, with keys, without repeated rows (`FrameMap.get`).

`CacheOp` lists what a caller asks of a cache and `CacheReply` what it is answered. `runOps`
answers a sequence of requests one after another, on a cache (`Cache.apply`) or on a map
(`FrameMap.apply`); `runOps_sim` turns a correspondence that every request keeps into one that
every sequence of requests keeps.
-/

namespace FrameCache

/-- The frames of a cache, each under its partition name, in the order they were first stored. -/
structure FrameMap where
  entries : List (String × Frame)

/-- What a caller asks of a cache. -/
inductive CacheOp where
  /-- Store a frame, made at the wall-clock time `now`. -/
  | store (now : CreatedAt) (f : Frame)
  | dropRange (start stop : Option Timestamp)
  | clear
  | partitions
  | oldest
  | newest
  | get (start stop : Option Timestamp) (keys : Option (List String))

/-- What a cache answers. -/
inductive CacheReply where
  | stored (r : Except CacheError PartitionFile)
  | dropped (r : Except CacheError Nat)
  | partitions (ps : List PartitionFile)
  | time (t : Option Timestamp)
  | read (r : Except CacheError (Option Frame))

/-- Answers requests one after another, each on the state the one before left. -/
def runOps {σ : Type} (apply : σ → CacheOp → CacheReply × σ) (s : σ) :
    List CacheOp → List CacheReply × σ
  | [] => ([], s)
  | op :: ops =>
    let step := apply s op
    let rest := runOps apply step.2 ops
    (step.1 :: rest.1, rest.2)

/-- A correspondence between two kinds of state that every allowed request keeps, answering
alike on both sides, is kept by every sequence of allowed requests, answered alike. -/
theorem runOps_sim {σ τ : Type} {A : σ → CacheOp → CacheReply × σ} {B : τ → CacheOp → CacheReply × τ}
    (R : σ → τ → Prop) (P : CacheOp → Prop)
    (hstep : ∀ s t op, R s t → P op → (A s op).1 = (B t op).1 ∧ R (A s op).2 (B t op).2) :
    ∀ (ops : List CacheOp) (s : σ) (t : τ), R s t → (∀ op ∈ ops, P op) →
      (runOps A s ops).1 = (runOps B t ops).1 ∧ R (runOps A s ops).2 (runOps B t ops).2 := by
  intro ops
  induction ops with
  | nil =>
    intro s t h _
    exact ⟨rfl, h⟩
  | cons op ops ih =>
    intro s t h hops
    obtain ⟨hr, hR⟩ := hstep s t op h (hops op List.mem_cons_self)
    obtain ⟨hrs, hR'⟩ := ih _ _ hR fun op' h' => hops op' (List.mem_cons_of_mem _ h')
    refine ⟨?_, hR'⟩
    simp only [runOps, hr, hrs]

namespace Cache

/-- A change of the cache answered with its result or its error, and the cache it leaves. -/
def answer {α : Type} (x : CacheM α) (c : Cache) : Except CacheError α × Cache :=
  match x c with
  | .ok a c' => (.ok a, c')
  | .error e c' => (.error e, c')

/-- Answers one request. -/
def apply (c : Cache) : CacheOp → CacheReply × Cache
  | .store now f => let r := answer (store now f) c; (.stored r.1, r.2)
  | .dropRange s e => let r := answer (dropRange s e) c; (.dropped r.1, r.2)
  | .clear => let r := answer clear c; (.dropped r.1, r.2)
  | .partitions => (.partitions c.partitions, c)
  | .oldest => (.time c.oldest, c)
  | .newest => (.time c.newest, c)
  | .get s e keys => (.read (c.get s e keys), c)

end Cache

namespace FrameMap

/-- The map with no entries. -/
def empty : FrameMap := ⟨[]⟩

/-- The frame stored under `name`. -/
def lookup? (m : FrameMap) (name : String) : Option Frame :=
  (m.entries.find? (·.1 == name)).map (·.2)

/-- The map with `f` under `name`: an entry of that name is replaced in place, a new one is
added last. -/
def put (m : FrameMap) (name : String) (f : Frame) : FrameMap :=
  if m.entries.any (·.1 == name) then ⟨m.entries.map fun x => if x.1 == name then (name, f) else x⟩
  else ⟨m.entries ++ [(name, f)]⟩

/-- An entry's partition: its name with the first and last timestamps of its frame. -/
def partitionOf (x : String × Frame) : Option PartitionFile :=
  match x.2.first?, x.2.last? with
  | some s, some e => some ⟨x.1, s, e⟩
  | _, _ => none

/-- The partitions, ordered by start, end and name. -/
def partitions (m : FrameMap) : List PartitionFile :=
  (m.entries.filterMap partitionOf).mergeSort PartitionFile.before

/-- The earliest start. -/
def oldest (m : FrameMap) : Option Timestamp := oldestOf m.partitions

/-- The latest end. -/
def newest (m : FrameMap) : Option Timestamp := newestOf m.partitions

/-- The frame stored under a partition's name. -/
def frameOf (m : FrameMap) (p : PartitionFile) : Frame := (m.lookup? p.name).getD {}

/-- Stores `f` under the name of its first and last timestamps and answers its partition. An
empty frame, a first or last timestamp whose local time cannot be written, or a timestamp beyond
the signed 64-bit nanosecond range (the first such one is named) is refused, and nothing
changes. -/
def store (m : FrameMap) (f : Frame) : Except CacheError PartitionFile × FrameMap :=
  match f.first?, f.last? with
  | some s, some e =>
    match Partition.fileName s e with
    | .error x => (.error (.fault x), m)
    | .ok name =>
      match f.index.toList.find? (·.toNanos?.isNone) with
      | some t => (.error (.timestampOutOfRange t), m)
      | none => (.ok ⟨name, s, e⟩, m.put name f)
  | _, _ => (.error .emptyFrame, m)

/-- The refusal of a window with both bounds and its end not after its start. -/
def windowError? (start stop : Option Timestamp) : Option CacheError :=
  match start, stop with
  | some s, some e => if e ≤ s then some (.invalidTimeRange s e) else none
  | _, _ => none

/-- Whether a partition lies inside the window, its missing bounds being the earliest start and
the latest end. -/
def inside (m : FrameMap) (start stop : Option Timestamp) (p : PartitionFile) : Bool :=
  match m.oldest, m.newest with
  | some o, some n => p.containedIn (start.getD o) (stop.getD n)
  | _, _ => false

/-- Drops the entries whose partition lies inside the window and counts them; a refused window
changes nothing. -/
def dropRange (m : FrameMap) (start stop : Option Timestamp) : Except CacheError Nat × FrameMap :=
  match windowError? start stop with
  | some err => (.error err, m)
  | none =>
    (.ok (m.partitions.filter (m.inside start stop)).length,
      ⟨m.entries.filter fun x => !(partitionOf x).any (m.inside start stop)⟩)

/-- The rows of the window from every stored frame, sorted by time and, with `keys`, without
repeated rows. Missing bounds are the earliest start and the latest end. An empty map, an empty
window, a window that meets no stored partition, or no rows give none; a window that meets no
partition is answered before any key is looked at. -/
def get (m : FrameMap) (start stop : Option Timestamp) (keys : Option (List String)) :
    Except CacheError (Option Frame) := do
  let ps := m.partitions
  let (some o, some n) := (oldestOf ps, newestOf ps) | return none
  let s := start.getD o
  let e := stop.getD n
  if e < s then return none
  if !ps.any (·.intersects s e) then return none
  let some joined ← (Frame.concat (ps.map m.frameOf)).mapError .frame | return none
  let sorted := (joined.filterRange s e).sortByIndex
  let f ← match keys with
    | some ks => (sorted.dedup ks).mapError .frame
    | none => pure sorted
  return if f.isEmpty then none else some f

/-- Answers one request. -/
def apply (m : FrameMap) : CacheOp → CacheReply × FrameMap
  | .store _ f => let r := m.store f; (.stored r.1, r.2)
  | .dropRange s e => let r := m.dropRange s e; (.dropped r.1, r.2)
  | .clear => let r := m.dropRange none none; (.dropped r.1, r.2)
  | .partitions => (.partitions m.partitions, m)
  | .oldest => (.time m.oldest, m)
  | .newest => (.time m.newest, m)
  | .get s e keys => (.read (m.get s e keys), m)

variable {m : FrameMap} {name n : String} {f : Frame}

theorem any_eq_false_iff : m.entries.any (·.1 == name) = false ↔ ∀ x ∈ m.entries, x.1 ≠ name := by
  simp

/-- Putting keeps the names, adding the new one last if it is new. -/
theorem names_put :
    (m.put name f).entries.map (·.1) =
      if m.entries.any (·.1 == name) then m.entries.map (·.1) else m.entries.map (·.1) ++ [name] := by
  unfold put
  split
  · simp only [List.map_map]
    refine List.map_congr_left fun x _ => ?_
    by_cases hx : x.1 = name <;> simp [hx]
  · simp_all

theorem mem_put {x : String × Frame} (hx : x ∈ (m.put name f).entries) :
    x = (name, f) ∨ (x ∈ m.entries ∧ x.1 ≠ name) := by
  unfold put at hx
  split at hx
  · obtain ⟨y, hy, rfl⟩ := List.mem_map.1 hx
    by_cases hn : y.1 = name
    · exact .inl (by simp [hn])
    · exact .inr ⟨by simpa [hn] using hy, by simp [hn]⟩
  · rename_i hany
    rcases List.mem_append.1 hx with hx | hx
    · exact .inr ⟨hx, any_eq_false_iff.1 (Bool.eq_false_iff.2 hany) x hx⟩
    · exact .inl (List.mem_singleton.1 hx)

/-- A window is refused exactly when both bounds are given and the end is not after the start. -/
theorem windowError?_eq_some {start stop : Option Timestamp} {err : CacheError}
    (h : windowError? start stop = some err) :
    ∃ a b, start = some a ∧ stop = some b ∧ b ≤ a ∧ err = .invalidTimeRange a b := by
  unfold windowError? at h
  split at h
  · rename_i a b
    split at h
    · rename_i hba
      cases h
      exact ⟨a, b, rfl, rfl, hba, rfl⟩
    · cases h
  · cases h

theorem windowError?_eq_none {start stop : Option Timestamp} (h : windowError? start stop = none) :
    ∀ a b, start = some a → stop = some b → a < b := by
  rintro a b rfl rfl
  simp only [windowError?] at h
  by_contra hab
  rw [if_pos (Timestamp.not_lt_iff.1 hab)] at h
  cases h

/-- An entry's partition carries its name and the first and last timestamps of its frame. -/
theorem partitionOf_eq_some {x : String × Frame} {p : PartitionFile} (h : partitionOf x = some p) :
    p.name = x.1 ∧ x.2.first? = some p.start ∧ x.2.last? = some p.stop := by
  unfold partitionOf at h
  split at h
  · rename_i s e hs he
    cases h
    exact ⟨rfl, hs, he⟩
  · cases h

theorem mem_partitions {p : PartitionFile} : p ∈ m.partitions ↔ ∃ x ∈ m.entries, partitionOf x = some p := by
  simp [partitions, List.mem_filterMap]

/-- Where names are distinct, an entry is found under its name. -/
theorem lookup?_eq_none (h : ∀ x ∈ m.entries, x.1 ≠ name) : m.lookup? name = none := by
  simpa [lookup?] using h

theorem lookup?_of_mem (hnd : (m.entries.map (·.1)).Nodup) {x : String × Frame} (hx : x ∈ m.entries) :
    m.lookup? x.1 = some x.2 := by
  unfold lookup?
  cases hf : m.entries.find? (·.1 == x.1) with
  | none => simpa using List.find?_eq_none.1 hf x hx
  | some y =>
    have hy := List.mem_of_find?_eq_some hf
    have hname : y.1 = x.1 := by simpa using List.find?_some hf
    rw [List.inj_on_of_nodup_map hnd hy hx hname]
    rfl

/-- Where names are distinct, a partition's frame is that of the entry it comes from. -/
theorem frameOf_of_partitionOf (hnd : (m.entries.map (·.1)).Nodup) {x : String × Frame} {p : PartitionFile}
    (hx : x ∈ m.entries) (hp : partitionOf x = some p) : m.frameOf p = x.2 := by
  rw [frameOf, (partitionOf_eq_some hp).1, lookup?_of_mem hnd hx]
  rfl

/-- An entry's name is among the names of some of the listed partitions exactly when its own
partition is among them. -/
theorem name_mem_filter_partitions (hnd : (m.entries.map (·.1)).Nodup) {x : String × Frame}
    {p : PartitionFile} (hx : x ∈ m.entries) (hp : partitionOf x = some p) (keep : PartitionFile → Bool) :
    x.1 ∈ (m.partitions.filter keep).map (·.name) ↔ keep p = true := by
  constructor
  · intro h
    obtain ⟨q, hq, hqn⟩ := List.mem_map.1 h
    obtain ⟨hqm, hkeep⟩ := List.mem_filter.1 hq
    obtain ⟨y, hy, hyq⟩ := mem_partitions.1 hqm
    -- the entry named like `q` is `x` itself, so `q` is its partition
    have hyx : y = x := List.inj_on_of_nodup_map hnd hy hx ((partitionOf_eq_some hyq).1.symm.trans hqn)
    rw [hyx, hp] at hyq
    cases hyq
    exact hkeep
  · intro h
    exact List.mem_map.2 ⟨p, List.mem_filter.2 ⟨mem_partitions.2 ⟨x, hx, hp⟩, h⟩, (partitionOf_eq_some hp).1⟩

end FrameMap

end FrameCache
