import FrameCache.Link.Basic

/-!
# Rolling statistics

For each link, in time order, entry `i` summarises the link's values in the window
`(tᵢ - w, tᵢ]` ending at its `i`-th timestamp: their mean, least and greatest value. NaN
values are left out and do not count towards the minimum number of values an entry needs;
an entry with fewer is empty. When `tᵢ - w` is before the representable range, the window
reaches back to the link's first row.
-/

namespace FrameCache

/-- The rolling statistics of one link. -/
structure LinkStats where
  index : Array Timestamp
  mean : Array (Option Double)
  least : Array (Option Double)
  greatest : Array (Option Double)

namespace LinkStats

/-- The spread of entry `i`: greatest minus least, when both exist. -/
def range (s : LinkStats) (i : Nat) : Option Double := do
  let hi ← (s.greatest[i]?).getD none
  let lo ← (s.least[i]?).getD none
  return hi.sub lo

end LinkStats

/-- The summary of a window so far: the count, sum, least and greatest of its values that
are not NaN, taken in order. The sum starts from negative zero, so that a sum of negative
zeros keeps its sign. -/
structure Running where
  count : Nat
  sum : Double
  least : Option Double
  greatest : Option Double

namespace Running

/-- The summary of no values. -/
def empty : Running := ⟨0, Double.negZero, none, none⟩

/-- The summary with one more value; NaN is left out. -/
def push (r : Running) (v : Double) : Running :=
  if v.isNaN then r
  else ⟨r.count + 1, r.sum.add v, some ((r.least.map (·.fmin v)).getD v),
    some ((r.greatest.map (·.fmax v)).getD v)⟩

/-- The summary of a list of values. -/
def ofList (vs : List Double) : Running := vs.foldl push empty

/-- Mean, least and greatest value, or nothing when there are fewer than `minPeriods`
values or none. -/
def result (r : Running) (minPeriods : Nat) : Option (Double × Double × Double) :=
  if r.count = 0 || r.count < minPeriods then none
  else
    match r.least, r.greatest with
    | some lo, some hi => some (r.sum.div (Double.ofNat r.count), lo, hi)
    | _, _ => none

end Running

/-- The first position from `left` on whose timestamp fails `p` (or the end). -/
def skipWhile (times : Array Timestamp) (p : Timestamp → Bool) : Nat → Nat → Nat
  | 0, left => left
  | fuel + 1, left =>
    match times[left]? with
    | some t => if p t then skipWhile times p fuel (left + 1) else left
    | none => left

/-- The start of the window that ends at `t`: the first position from an earlier start `left`
on whose timestamp lies after `t - window`, or `left` when `t - window` is before the
representable range. -/
def windowStart (times : Array Timestamp) (window : TimeDelta) (left : Nat) (t : Timestamp) : Nat :=
  match t.subDelta? window with
  | some lower => skipWhile times (fun u => decide (u ≤ lower)) times.size left
  | none => left

/-- One entry of the rolling statistics: the window start moves on to the `i`-th entry's. A
window whose start stays put grows by its new value; one whose start moves is summed again from
its start, so the values are always added in the same order. -/
def rollStep (times : Array Timestamp) (values : Array Double) (window : TimeDelta)
    (minPeriods : Nat) (acc : Nat × Running × List (Option (Double × Double × Double))) (i : Nat) :
    Nat × Running × List (Option (Double × Double × Double)) :=
  let (left, run, out) := acc
  let start := windowStart times window left (times.getD i default)
  let run := if start = left then run.push (values.getD i Double.nan)
    else Running.ofList (values.extract start (i + 1)).toList
  (start, run, run.result minPeriods :: out)

/-- The statistics of one link whose rows, in time order, have these timestamps and values. -/
def linkStats (times : Array Timestamp) (values : Array Double) (window : TimeDelta)
    (minPeriods : Nat) : LinkStats :=
  let entries :=
    ((List.range times.size).foldl (rollStep times values window minPeriods) (0, Running.empty, [])).2.2.reverse
  { index := times,
    mean := (entries.map (·.map (·.1))).toArray,
    least := (entries.map (·.map (·.2.1))).toArray,
    greatest := (entries.map (·.map (·.2.2))).toArray }

/-- The rows of each link, links in byte order, rows in frame order: the rows are sorted
stably by link and cut into runs of one link. -/
def rowsByLink (links : List String) : List (String × List Nat) :=
  let sorted := links.zipIdx.mergeSort fun a b => decide (a.1 ≤ b.1)
  let runs := foldRuns (fun g x => decide (g.1 = x.1)) (fun g x => (g.1, x.2 :: g.2))
    (fun x => (x.1, [x.2])) sorted
  (runs.map fun (l, rows) => (l, rows.reverse)).reverse

/-- Rolling mean, least and greatest value of `valueColumn` for every link. -/
def computeStats (f : Frame) (linkColumn valueColumn : String) (window : TimeDelta)
    (minPeriods : Nat) : Except CacheError (List (String × LinkStats)) := do
  if window.nanos ≤ 0 then
    throw (.invalidConfiguration ("rolling window " ++ window.text ++ " must be positive"))
  let links ← (f.textColumn linkColumn).mapError .frame
  let values ← (f.floatColumn valueColumn).mapError .frame
  return (rowsByLink links.toList).map fun (l, rows) =>
    let sorted := rows.mergeSort fun a b => decide (f.index.getD a default ≤ f.index.getD b default)
    (l, linkStats (sorted.map (f.index.getD · default)).toArray (sorted.map (values.getD · Double.nan)).toArray
      window minPeriods)

end FrameCache
