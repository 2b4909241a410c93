import FrameCache.Store.Directory
import FrameCache.Frame.Concat
import FrameCache.Frame.Dedup
import FrameCache.Partition.Name

/-!
# The partition cache

A cache is a directory of partition files, each named by the first and last timestamps of
the frame it holds. Files whose extension is not the partition extension, subdirectories and
names that do not parse are ignored. The partitions are ordered by start, then end, then
name; the cache's oldest timestamp is the earliest start and its newest the latest end.

Reads join every partition that meets the window, keep the rows inside it, sort them by
time and may drop repeated rows. Writes replace a partition of the same interval through a
temporary file.
-/

namespace FrameCache

/-- The extension of a file name: what follows its last dot, when that dot does not lead
the name. -/
def extensionOf? (name : String) : Option String :=
  match (name.toList.splitOn '.').map String.ofList with
  | [] | [_] | ["", _] => none
  | parts => parts.getLast?

/-- Orders partitions by start, end and name. -/
def PartitionFile.before (a b : PartitionFile) : Bool :=
  match a.start.cmp b.start with
  | .lt => true
  | .gt => false
  | .eq =>
    match a.stop.cmp b.stop with
    | .lt => true
    | .gt => false
    | .eq => decide (a.name ≤ b.name)

/-- The earliest start; of equal ones, the first. -/
def oldestOf (ps : List PartitionFile) : Option Timestamp :=
  ps.foldl (fun m p => some (match m with | some t => t.earlier p.start | none => p.start)) none

/-- The latest end; of equal ones, the last. -/
def newestOf (ps : List PartitionFile) : Option Timestamp :=
  ps.foldl (fun m p => some (match m with | some t => t.later p.stop | none => p.stop)) none

/-- Counts of a cache. -/
structure CacheStats where
  files : Nat
  rows : Nat
  oldest : Option Timestamp
  newest : Option Timestamp

/-- A cache of frames in the directory at `root`. -/
structure Cache where
  root : String
  files : Directory
  /-- How far back a fetch of the latest rows reaches when the cache is empty. -/
  emptyLookback : TimeDelta

/-- Cache operations that change the directory; a failed operation keeps what it wrote. -/
abbrev CacheM := EStateM CacheError Cache

/-- The default empty lookback, one day. -/
def defaultEmptyLookback : Span := Span.ofWholeSeconds 86400

namespace Cache

/-- Opens a cache on a fresh directory at `root`. The lookback must be a time delta; a
regular file at `root` is refused. -/
def build (root : String) (rootIsFile : Bool) (lookback : Span) :
    Except CacheError Cache := do
  let some d := TimeDelta.ofSpan? lookback
    | throw (.invalidConfiguration ("empty lookback " ++ lookback.text ++ " is out of range"))
  if rootIsFile then throw (.notADirectory root)
  return ⟨root, .empty, d⟩

/-- The path of an entry, as messages show it. -/
def pathOf (c : Cache) (name : String) : String := c.root ++ "/" ++ name

/-- The partitions, ordered by start, end and name. -/
def partitions (c : Cache) : List PartitionFile :=
  let found := c.files.entries.filterMap fun (name, e) =>
    match e with
    | .file _ =>
      if extensionOf? name == some Partition.extension then
        (Partition.parseName? name).map fun (s, t) => ⟨name, s, t⟩
      else none
    | .folder => none
  found.mergeSort PartitionFile.before

/-- The start of the earliest partition. -/
def oldest (c : Cache) : Option Timestamp := oldestOf c.partitions

/-- The end of the latest partition. -/
def newest (c : Cache) : Option Timestamp := newestOf c.partitions

/-- The partitions that matter for a window: missing bounds are the cache's oldest and
newest; with `contained` those inside the window, else those that overlap it. -/
def filesInRange (c : Cache) (start stop : Option Timestamp) (contained : Bool) :
    Except CacheError (List PartitionFile) := do
  if let (some s, some e) := (start, stop) then
    if e ≤ s then throw (.invalidTimeRange s e)
  let ps := c.partitions
  match oldestOf ps, newestOf ps with
  | some o, some n =>
    let s := start.getD o
    let e := stop.getD n
    return ps.filter fun p => if contained then p.containedIn s e else p.overlaps s e
  | _, _ => return []

/-- Reads and decodes the partition file `name`. An empty file is not a partition. -/
def read (c : Cache) (name : String) : Except CacheError (PartitionHeader × Frame) :=
  match c.files.find name with
  | .error e => .error (.ioAt (c.pathOf name) e)
  | .ok .folder => .error (.ioAt (c.pathOf name) .noDevice)
  | .ok (.file data) =>
    if data.size = 0 then .error (.invalidPartition (c.pathOf name))
    else (PartitionCodec.decode data).mapError CacheError.ofRead

/-- Reads only the header of the partition file `name`. -/
def readMeta (c : Cache) (name : String) : Except CacheError PartitionHeader :=
  match c.files.find name with
  | .error e => .error (.ioAt (c.pathOf name) e)
  | .ok .folder => .error (.ioAt (c.pathOf name) .isADirectory)
  | .ok (.file data) =>
    match PartitionCodec.readHeader data with
    | .ok h => .ok h
    | .error .shortPreamble => .error (.ioAt (c.pathOf name) IoFailure.shortRead)
    | .error (.read e) => .error (CacheError.ofRead e)

/-- The rows of the window `[start, stop]` from every partition that meets it, sorted by
time and, with `keys`, without repeated rows. Missing bounds are the cache's oldest and
newest; an empty cache, an empty window or no rows give none. -/
def get (c : Cache) (start stop : Option Timestamp) (keys : Option (List String)) :
    Except CacheError (Option Frame) := do
  let ps := c.partitions
  let (some o, some n) := (oldestOf ps, newestOf ps) | return none
  let s := start.getD o
  let e := stop.getD n
  if e < s then return none
  let frames ← (ps.filter fun p => p.intersects s e).mapM fun p => (c.read p.name).map (·.2)
  let some joined ← (Frame.concat frames).mapError .frame | return none
  let sorted := (joined.filterRange s e).sortByIndex
  let f ← match keys with
    | some ks => (sorted.dedup ks).mapError .frame
    | none => pure sorted
  return if f.isEmpty then none else some f

/-- The largest count of rows, `2⁶⁴ - 1`. -/
def maxRowCount : Nat := 18446744073709551615

/-- The counts of the cache; a partition whose header cannot be read adds no rows. The rows
are added up partition by partition, and a sum beyond `maxRowCount` is a fault. -/
def stats (c : Cache) : Except Fault CacheStats := do
  let ps := c.partitions
  let addRows (n : Nat) (p : PartitionFile) : Except Fault Nat :=
    let m := n + ((c.readMeta p.name).toOption.map (·.rows)).getD 0
    if m > maxRowCount then .error .addOverflow else .ok m
  return { files := ps.length, rows := ← ps.foldlM addRows 0,
           oldest := oldestOf ps, newest := newestOf ps }

/-- Runs a failing step of the file system on the cache's directory. -/
def onFiles (path : String) (step : Directory → Except IoFailure Directory) : CacheM Unit := do
  let c ← getThe Cache
  match step c.files with
  | .ok d => set { c with files := d }
  | .error e => throw (.ioAt path e)

/-- Writes a frame as the partition named by its first and last timestamps, replacing one
of the same name: the bytes, whose header says they were made at `now`, go to a temporary
file that is then renamed. -/
def store (now : CreatedAt) (f : Frame) : CacheM PartitionFile := do
  let (some s, some e) := (f.first?, f.last?) | throw .emptyFrame
  let c ← getThe Cache
  let name ← match Partition.fileName s e with
    | .ok n => pure n
    | .error f => throw (.fault f)
  let bytes ← match PartitionCodec.encode f now with
    | .ok b => pure b
    | .error err => throw (CacheError.ofWrite err)
  let tmp := "." ++ name ++ ".tmp"
  onFiles (c.pathOf tmp) (·.writeFile tmp bytes)
  onFiles (c.pathOf name) (·.rename tmp name)
  return ⟨name, s, e⟩

/-- Removes the partitions inside the window and counts them. -/
def dropRange (start stop : Option Timestamp) : CacheM Nat := do
  let c ← getThe Cache
  let ps : List PartitionFile ← match c.filesInRange start stop true with
    | Except.ok ps => pure ps
    | Except.error e => throw e
  for p in ps do
    onFiles (c.pathOf p.name) (·.removeFile p.name)
  return ps.length

/-- Removes every partition and counts them. -/
def clear : CacheM Nat := dropRange none none

end Cache

end FrameCache
