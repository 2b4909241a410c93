import FrameCache.Frame.Basic

/-!
# Removing repeated rows

`Frame.dedup` keeps the first row of each key and sorts the result by instant. The key is
made of the named columns, or of the index and every column when no name is given. A name
that is not a column but is the index name stands for the index. In a key, timestamps are
compared by instant, doubles with every NaN equal and `-0.0` equal to `0.0`, and texts as
they are.
-/

namespace FrameCache

/-- One part of a row's key. -/
inductive KeyPart where
  | time (i : Instant)
  | float (bits : UInt64)
  | text (s : String)
  deriving DecidableEq, Repr

namespace KeyPart

/-- A total order on key parts: instants in time order, doubles by their bits, texts in
byte order; parts of different sorts by sort. Two parts compare equal exactly when they are
equal. -/
def compare : KeyPart → KeyPart → Ordering
  | .time a, .time b => a.cmp b
  | .float a, .float b => Ord.compare a b
  | .text a, .text b => Ord.compare a b
  | .time _, _ => .lt
  | _, .time _ => .gt
  | .float _, _ => .lt
  | _, .float _ => .gt

/-- Lexicographic order on keys. -/
def compareKeys : List KeyPart → List KeyPart → Ordering
  | [], [] => .eq
  | [], _ :: _ => .lt
  | _ :: _, [] => .gt
  | a :: as, b :: bs =>
    match compare a b with
    | .eq => compareKeys as bs
    | o => o

end KeyPart

/-- Where a part of the key is read from. -/
inductive KeySource where
  | index
  | column (c : Column)

namespace Frame

/-- The sources of a key: the named columns, or the index and all columns. -/
def keySources (f : Frame) (names : List String) : Except FrameError (List KeySource) :=
  if names.isEmpty then .ok (.index :: f.columns.map fun (_, c) => .column c)
  else names.mapM fun n =>
    if f.hasColumn n then .column <$> f.column n
    else if n == f.indexName then .ok .index
    else .error (.missingColumn n)

/-- The key part of a row read from one source. -/
def keyPart (f : Frame) (row : Nat) : KeySource → KeyPart
  | .index => .time (f.index.getD row default).instant
  | .column (.float vs) => .float (vs.getD row default).canonical.bits
  | .column (.text vs) => .text (vs.getD row default)

/-- The rows whose key was not seen in an earlier row, in row order. The rows are sorted
stably by key, the first row of each run of one key is kept, and the kept rows are put back
in row order. -/
def firstOfEachKey (keys : List (List KeyPart)) : List Nat :=
  let sorted := keys.zipIdx.mergeSort fun a b => KeyPart.compareKeys a.1 b.1 != .gt
  let firsts := (sorted.foldl (fun (acc : Option (List KeyPart) × List Nat) (k, row) =>
    if acc.1 == some k then acc else (some k, row :: acc.2)) (none, [])).2
  firsts.mergeSort fun a b => decide (a ≤ b)

/-- The first row of each key, sorted by instant. -/
def dedup (f : Frame) (names : List String) : Except FrameError Frame := do
  let sources ← f.keySources names
  let keys := (List.range f.size).map fun row => sources.map (f.keyPart row)
  return (f.takeRows (firstOfEachKey keys)).sortByIndex

end Frame

end FrameCache
