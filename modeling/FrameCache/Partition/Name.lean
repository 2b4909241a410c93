import FrameCache.Time.Parse

/-!
# Partition names

A partition file is named after the first and last timestamps it holds: the RFC 3339 forms
of both, joined by `_`, with the extension `.chunk`. Tools that cannot store `:` in file names
replace each colon by `_` (a *mangled* name); for timestamps of whole seconds the stem then has
51 characters with the separator at byte 25, and such stems are read too.

Since the offset is written rounded to the minute, a name read back gives the written
instant only when the offsets are whole minutes.

A partition also answers three questions about a query range `[start, end]`: whether it
overlaps it (`overlaps`: starts at or before `end` and ends after `start`), whether the closed
intervals meet (`intersects`), and whether it lies inside it (`containedIn`).
-/

namespace FrameCache

namespace Partition

/-- The extension of partition files. -/
def extension : String := "chunk"

/-- The length of a mangled stem of whole-second timestamps. -/
def mangledLength : Nat := 51

/-- The byte index of the separator in a mangled stem. -/
def mangledSeparator : Nat := 25

/-- The stem of a partition from `start` to `end`; both local times must be in range. -/
def stem (start stop : Timestamp) : Except Fault String := do
  return (← start.render) ++ "_" ++ (← stop.render)

/-- The file name of a partition from `start` to `end`. -/
def fileName (start stop : Timestamp) : Except Fault String := do
  return (← stem start stop) ++ "." ++ extension

/-- The name with every `:` replaced by `_`. -/
def mangle (name : String) : String := String.ofList (name.toList.map fun c => if c = ':' then '_' else c)

/-- Reads both timestamps of a stem in RFC 3339 form. -/
def parsePair (a b : String) : Option (Timestamp × Timestamp) :=
  match Timestamp.parseRfc3339 a, Timestamp.parseRfc3339 b with
  | .ok s, .ok e => some (s, e)
  | _, _ => none

/-- The name without `.chunk`, or the whole name when it does not end so. -/
def stemOf (name : String) : String :=
  let cs := name.toList
  let ext := ("." ++ extension).toList
  if cs.length ≥ ext.length && cs.drop (cs.length - ext.length) == ext then
    String.ofList (cs.take (cs.length - ext.length))
  else name

/-- The start and end timestamps a file name encodes: a stem with exactly one `_` between
two RFC 3339 timestamps, or a mangled stem of 51 ASCII characters with `_` at byte 25. -/
def parseName? (name : String) : Option (Timestamp × Timestamp) :=
  let cs := (stemOf name).toList
  if cs.count '_' == 1 then
    parsePair (String.ofList (cs.takeWhile (· ≠ '_'))) (String.ofList ((cs.dropWhile (· ≠ '_')).drop 1))
  else if cs.length == mangledLength && cs.all (·.toNat < 128) && cs[mangledSeparator]? == some '_' then
    let unmangle (xs : List Char) := String.ofList (xs.map fun c => if c = '_' then ':' else c)
    parsePair (unmangle (cs.take mangledSeparator)) (unmangle (cs.drop (mangledSeparator + 1)))
  else none

/-- The last component of a `/`-separated path when it is a name: empty components and `.`
are passed over, and `..` or nothing at all gives none. -/
def lastName? (path : String) : Option String :=
  match ((path.splitOn "/").filter fun p => p ≠ "" && p ≠ ".").getLast? with
  | some ".." => none
  | some n => some n
  | none => none

end Partition

/-- A stored partition: its file name and the interval that the name encodes. -/
structure PartitionFile where
  name : String
  start : Timestamp
  stop : Timestamp

namespace PartitionFile

/-- The partition that a file name describes, if the name can be read. -/
def ofName? (name : String) : Option PartitionFile :=
  (Partition.parseName? name).map fun (s, e) => ⟨name, s, e⟩

/-- Whether the partition overlaps `[start, end]`: it starts at or before `end` and ends
after `start`. -/
def overlaps (p : PartitionFile) (start stop : Timestamp) : Bool := p.start ≤ stop && start < p.stop

/-- Whether the closed intervals of the partition and of `[start, end]` meet. -/
def intersects (p : PartitionFile) (start stop : Timestamp) : Bool := p.start ≤ stop && start ≤ p.stop

/-- Whether the partition lies inside `[start, end]`. -/
def containedIn (p : PartitionFile) (start stop : Timestamp) : Bool := start ≤ p.start && p.stop ≤ stop

end PartitionFile

end FrameCache
