import FrameCache.Flatness.Config
import FrameCache.Link.Resample
import FrameCache.Link.Bandwidth
import FrameCache.Link.Rolling

/-!
# Flat intervals

The entries of a link's rolling statistics are taken in time order. An entry is suspect
when its mean lies strictly inside the valid band and its spread is under the limit. A
suspect entry at `t` stands for the interval from the first entry of its window (those at
or after `t - w`) to `t`. It joins the interval found last when that interval reaches the
new start and the spread of both together stays under the limit; otherwise it starts a new
interval. Intervals shorter than the window are dropped.

The whole analysis of a frame computes bandwidth, utilisation and rolling statistics, after
resampling unevenly sampled data to its smallest gap when asked to.
-/

namespace FrameCache

/-- An interval being grown, with the least and greatest value seen in it. -/
structure Candidate where
  start : Timestamp
  stop : Timestamp
  low : Double
  high : Double

/-- Adds a suspect entry to the candidates, latest first: the latest grows when it reaches
`start` and the joint spread stays under `limit`. -/
def growCandidates (limit : Double) (start t : Timestamp) (low high : Double) :
    List Candidate → List Candidate
  | c :: cs =>
    if start ≤ c.stop && ((c.high.fmax high).sub (c.low.fmin low)).lt limit then
      { c with stop := t, low := c.low.fmin low, high := c.high.fmax high } :: cs
    else ⟨start, t, low, high⟩ :: c :: cs
  | [] => [⟨start, t, low, high⟩]

/-- The flat intervals of one link's statistics. -/
def analyzeLink (s : LinkStats) (c : FlatnessConfig) (window : TimeDelta) : List Interval :=
  let n := s.index.size
  let order := (List.range n).mergeSort fun a b =>
    decide (s.index.getD a default ≤ s.index.getD b default)
  let times := (order.map (s.index.getD · default)).toArray
  let step (acc : Nat × List Candidate) (entry : Nat × Nat) : Nat × List Candidate :=
    let (left, found) := acc
    let (pos, i) := entry
    let t := times.getD pos default
    let left := match t.subDelta? window with
      | some lower => skipWhile times (fun u => decide (u < lower)) times.size left
      | none => left
    match (s.mean.getD i none, s.least.getD i none, s.greatest.getD i none) with
    | (some mean, some low, some high) =>
      if c.minValid.lt mean && mean.lt c.maxValid && (high.sub low).lt c.flatnessLimit then
        (left, growCandidates c.flatnessLimit (times.getD (min left pos) default) t low high found)
      else (left, found)
    | _ => (left, found)
  let found := ((List.range n).zip order |>.foldl step (0, [])).2.reverse
  (found.map fun k => (⟨k.start, k.stop⟩ : Interval)).filter fun i => window ≤ i.duration

/-- The flat intervals of every link, links in byte order. The mean, least and greatest
lists of each link must be as long as its index. -/
def analyzeFlatness (stats : List (String × LinkStats)) (c : FlatnessConfig) :
    Except CacheError (List (String × List Interval)) := do
  let window ← c.validate
  stats.mapM fun (link, s) => do
    let n := s.index.size
    for (name, len) in [("mean", s.mean.size), ("min", s.least.size), ("max", s.greatest.size)] do
      if len ≠ n then throw (.frame (.columnLength (link ++ "." ++ name) n len))
    return (link, analyzeLink s c window)

/-- Flat intervals of a long-form frame of link data: bandwidth, utilisation against the
`speeds` of the links, rolling statistics, then interval detection. -/
def flatnessAnalysis (f : Frame) (speeds : String → Option Double) (c : FlatnessConfig) :
    Except CacheError (List (String × List Interval)) := do
  let window ← c.validate
  discard ((f.textColumn c.linkColumn).mapError .frame)
  discard ((f.floatColumn c.dataColumn).mapError .frame)
  let f := f.sortByIndex
  let f ← if c.resample then
      match samplingPeriod f.index.toList with
      | .error (.nonUniformSampling least _) =>
        let resolution := (minResolution f.index.toList).getD least
        resample f c.linkColumn c.dataColumn resolution c.dataKind
      | .error e => throw e
      | .ok _ => pure f
    else pure f
  let f ← Link.bandwidth f c.linkColumn c.dataColumn c.dataKind
  let f ← Link.utilization f c.linkColumn speeds
  let stats ← computeStats f c.linkColumn Link.utilizationColumn window c.minPeriods
  analyzeFlatness stats c

end FrameCache
