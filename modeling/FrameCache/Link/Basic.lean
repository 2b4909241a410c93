import FrameCache.Error

/-!
# Links and sampling

Link data comes in long form: one row per timestamp and link, with a text column naming
the link and float columns of measurements. A link is named `device:interface`.

The sampling of an index is read from the gaps between its distinct instants, in time
order: the smallest gap is its resolution, and an index whose gaps are all equal has that
gap as its period.
-/

namespace FrameCache

/-- What the data column of a link frame measures. -/
inductive DataKind where
  /-- Byte counts accumulated over each sampling period. -/
  | bytes
  /-- Rates in bits per second. -/
  | bitsPerSecond
  deriving DecidableEq

namespace Link

/-- The default name of the link column. -/
def defaultColumn : String := "link"

/-- The name of the bandwidth column. -/
def bandwidthColumn : String := "bps"

/-- The name of the utilisation column. -/
def utilizationColumn : String := "utilization"

/-- The name of a link: its device and interface joined by a colon. -/
def id (device interface : String) : String := device ++ ":" ++ interface

/-- Adds (or replaces) a link column built from a device and an interface column. -/
def deriveColumn (f : Frame) (deviceColumn interfaceColumn linkColumn : String) :
    Except CacheError Frame := do
  let devices ← (f.textColumn deviceColumn).mapError .frame
  let interfaces ← (f.textColumn interfaceColumn).mapError .frame
  let links := (devices.toList.zip interfaces.toList).map fun (d, i) => id d i
  (f.insertColumn linkColumn (.text links.toArray)).mapError .frame

end Link

/-- Adds an element to runs kept latest first: it joins the latest run when `joins` says so,
and opens a new run otherwise. -/
def pushRun {α β : Type} (joins : β → α → Bool) (extend : β → α → β) (start : α → β) :
    List β → α → List β
  | g :: gs, x => if joins g x then extend g x :: gs else start x :: g :: gs
  | [], x => [start x]

/-- The runs of a list, latest first: each element joins the run before it or opens a new
one. -/
def foldRuns {α β : Type} (joins : β → α → Bool) (extend : β → α → β) (start : α → β)
    (xs : List α) : List β :=
  xs.foldl (pushRun joins extend start) []

/-- Keeps the first of each run of timestamps at one instant. -/
def dropRepeatedInstants (ts : List Timestamp) : List Timestamp :=
  (foldRuns (fun u t => u.sameInstant t) (fun u _ => u) id ts).reverse

/-- The distinct instants of an index, in time order. -/
def distinctInstants (index : List Timestamp) : List Timestamp :=
  dropRepeatedInstants (index.mergeSort fun a b => decide (a ≤ b))

/-- The gaps between consecutive distinct instants. -/
def gaps (index : List Timestamp) : List TimeDelta :=
  let ts := distinctInstants index
  (ts.zip ts.tail).map fun (a, b) => b.since a

/-- The smallest of a list of deltas. -/
def leastDelta (ds : List TimeDelta) : Option TimeDelta :=
  ds.foldl (fun m d => some (match m with | some e => if d < e then d else e | none => d)) none

/-- The largest of a list of deltas. -/
def greatestDelta (ds : List TimeDelta) : Option TimeDelta :=
  ds.foldl (fun m d => some (match m with | some e => if e < d then d else e | none => d)) none

/-- The smallest gap between distinct instants of an index. -/
def minResolution (index : List Timestamp) : Option TimeDelta := leastDelta (gaps index)

/-- The sampling period of an index: none with fewer than two distinct instants, and an
error when the gaps differ. -/
def samplingPeriod (index : List Timestamp) : Except CacheError (Option TimeDelta) :=
  let gs := gaps index
  match leastDelta gs, greatestDelta gs with
  | some a, some b => if a.nanos = b.nanos then .ok (some a) else .error (.nonUniformSampling a b)
  | _, _ => .ok none

end FrameCache
