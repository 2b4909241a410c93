import FrameCache.Link.Basic

/-!
# Resampling

Resampling puts every link on one uniform grid. Each row falls into the bucket that its
timestamp truncates to; a bucket sums the values of its rows that are not NaN and counts
them. Byte counts become the bucket's sum, rates its mean. A grid point with no rows of a
link is a zero byte count or an unknown (NaN) rate, and a bucket whose rows are all NaN is
NaN either way.

The grid runs from the earliest bucket to the latest by the resolution, with the offset of
the earliest bucket; every grid point has one row per link, links in byte order.
-/

namespace FrameCache

/-- A bucket of resampled rows: where it starts, its link, and the sum and count of the
values that are not NaN. -/
structure Bucket where
  start : Timestamp
  link : String
  sum : Double
  count : Nat

namespace Bucket

/-- Whether the key (`t`, `link`) comes before the bucket's, by instant then link. -/
def keyBefore (t : Timestamp) (link : String) (b : Bucket) : Bool :=
  match t.cmp b.start with
  | .lt => true
  | .gt => false
  | .eq => decide (link < b.link)

/-- Whether the key (`t`, `link`) is the bucket's. -/
def hasKey (t : Timestamp) (link : String) (b : Bucket) : Bool :=
  t.sameInstant b.start && link == b.link

/-- The bucket with one more value; NaN is left out. -/
def add (b : Bucket) (v : Double) : Bucket :=
  if v.isNaN then b else { b with sum := b.sum.add v, count := b.count + 1 }

/-- The value of a grid cell. -/
def value (kind : DataKind) : Option Bucket → Double
  | some b =>
    if b.count = 0 then Double.nan
    else match kind with
      | .bytes => b.sum
      | .bitsPerSecond => b.sum.div (Double.ofNat b.count)
  | none =>
    match kind with
    | .bytes => Double.zero
    | .bitsPerSecond => Double.nan

end Bucket

/-- The buckets of rows, each given as its bucket start, link and value, in row order: the
rows are sorted stably by key and each run of one key becomes a bucket that starts at its
first row's timestamp and adds the values in row order. Buckets come sorted by key. -/
def collectBuckets (rows : List (Timestamp × String × Double)) : List Bucket :=
  let sorted := rows.mergeSort fun a b => !(Bucket.keyBefore b.1 b.2.1 ⟨a.1, a.2.1, Double.zero, 0⟩)
  (foldRuns (fun b (t, l, _) => b.hasKey t l) (fun b (_, _, v) => b.add v)
    (fun (t, l, v) => Bucket.add ⟨t, l, Double.zero, 0⟩ v) sorted).reverse

/-- One grid cell against the buckets left, given in increasing key order: buckets before the
cell are passed over (they are off the grid), and the cell takes the value of the next bucket if
that bucket is the cell's, or the value of an empty cell. -/
def fillStep (kind : DataKind) (acc : List Double × List Bucket) (cell : Timestamp × String) :
    List Double × List Bucket :=
  let (t, l) := cell
  let rest := acc.2.dropWhile fun b => !(Bucket.keyBefore t l b) && !(b.hasKey t l)
  match rest with
  | b :: bs =>
    if b.hasKey t l then (Bucket.value kind (some b) :: acc.1, bs)
    else (Bucket.value kind none :: acc.1, rest)
  | [] => (Bucket.value kind none :: acc.1, [])

/-- The values of grid cells given in increasing key order, read from buckets sorted by key. -/
def fillCells (kind : DataKind) (cells : List (Timestamp × String)) (buckets : List Bucket) :
    List Double :=
  (cells.foldl (fillStep kind) ([], buckets)).1.reverse

/-- The distinct texts of a list, in byte order. -/
def distinctTexts (xs : List String) : List String :=
  (foldRuns (fun u x => decide (u = x)) (fun u _ => u) id (xs.mergeSort fun a b => decide (a ≤ b))).reverse

/-- The points from `t` on by `step` that are not after `last`, stopping early where a
point would leave the representable range. -/
def gridFrom (last : Timestamp) (step : TimeDelta) : Nat → Timestamp → List Timestamp
  | 0, _ => []
  | fuel + 1, t =>
    if t ≤ last then
      t :: match t.addDelta? step with
        | some u => gridFrom last step fuel u
        | none => []
    else []

/-- The grid of buckets sorted by key: from the earliest bucket start to the latest by the
resolution, with the offset of the earliest; no buckets make no grid. -/
def bucketGrid (resolution : TimeDelta) (buckets : List Bucket) : List Timestamp :=
  match buckets.head?, buckets.getLast? with
  | some first, some last =>
    gridFrom last.start resolution (first.start.stepBound last.start resolution) first.start
  | _, _ => []

/-- The cells of the grid: every grid point with every link of the buckets, links in byte
order. -/
def gridCells (resolution : TimeDelta) (buckets : List Bucket) : List (Timestamp × String) :=
  let linkSet := distinctTexts (buckets.map (·.link))
  (bucketGrid resolution buckets).flatMap fun t => linkSet.map fun l => (t, l)

/-- The rows of a long-form frame: each timestamp with its link and value, as far as the index
and both columns go. -/
def sampleRows (index : Array Timestamp) (links : Array String) (values : Array Double) :
    List ((Timestamp × String) × Double) :=
  (index.toList.zip links.toList).zip values.toList

/-- Resamples every link of a long-form frame onto a grid of `resolution`. The result has
only the link and data columns, ordered by time then link. -/
def resample (f : Frame) (linkColumn dataColumn : String) (resolution : TimeDelta)
    (kind : DataKind) : Except CacheError Frame := do
  if resolution.nanos ≤ 0 then
    throw (.invalidConfiguration ("resample resolution " ++ resolution.text ++ " must be positive"))
  let links ← (f.textColumn linkColumn).mapError .frame
  let values ← (f.floatColumn dataColumn).mapError .frame
  let rows := sampleRows f.index links values
  let bucketOf (row : (Timestamp × String) × Double) : Except CacheError (Timestamp × String × Double) := do
    let ((t, l), v) := row
    CacheError.requireLocal t
    match t.truncate resolution with
    | .ok b => pure (b, l, v)
    | .error e => throw (.invalidConfiguration ("cannot bucket " ++ t.display ++ " by "
        ++ resolution.text ++ ": " ++ e.message))
  let buckets := collectBuckets (← rows.mapM bucketOf)
  let keys := gridCells resolution buckets
  let g := (Frame.ofIndex (keys.map (·.1)).toArray).withIndexName f.indexName
  let g ← (g.insertColumn linkColumn (.text (keys.map (·.2)).toArray)).mapError .frame
  (g.insertColumn dataColumn (.float (fillCells kind keys buckets).toArray)).mapError .frame

end FrameCache
