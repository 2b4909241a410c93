import FrameCache.Time.Timestamp
import FrameCache.Double

/-!
# Frames

A frame is a table indexed by time: an index of timestamps and named columns of doubles or
of texts, in a fixed order, each with one entry per timestamp. The index has a name of its
own, `time` unless set otherwise.

Columns are added with `Frame.insertColumn`, which refuses a column of the wrong length and
replaces a column of the same name where it stands. Rows are selected by position
(`takeRows`), by an inclusive range of instants (`filterRange`), or reordered by instant
with ties kept in their order (`sortByIndex`). Timestamps are compared by instant only.
-/

namespace FrameCache

/-- The two kinds of column. -/
inductive ColumnKind where
  | float
  | text
  deriving DecidableEq, Repr, Inhabited

namespace ColumnKind

/-- The name of a kind: `Float` or `Text`. -/
def name : ColumnKind → String
  | .float => "Float"
  | .text => "Text"

end ColumnKind

/-- A column: doubles or texts. -/
inductive Column where
  | float (values : Array Double)
  | text (values : Array String)
  deriving DecidableEq, Repr, Inhabited

namespace Column

/-- The kind of a column. -/
def kind : Column → ColumnKind
  | .float _ => .float
  | .text _ => .text

/-- The number of entries. -/
def size : Column → Nat
  | .float vs => vs.size
  | .text vs => vs.size

/-- The entries at the given positions, in the given order. -/
def takeRows (c : Column) (rows : List Nat) : Column :=
  match c with
  | .float vs => .float (rows.toArray.map fun i => vs.getD i default)
  | .text vs => .text (rows.toArray.map fun i => vs.getD i default)

/-- A column of the same kind with no entries. -/
def emptyLike : Column → Column
  | .float _ => .float #[]
  | .text _ => .text #[]

/-- The entries of `b` after those of `a`, when both have one kind. -/
def append? : Column → Column → Option Column
  | .float a, .float b => some (.float (a ++ b))
  | .text a, .text b => some (.text (a ++ b))
  | _, _ => none

end Column

/-- Why two frames could not be joined. -/
inductive SchemaIssue where
  | columnCount (expected found : Nat)
  | columnName (expected found : String)
  | columnKind (name : String) (first second : ColumnKind)
  deriving DecidableEq, Repr

namespace SchemaIssue

/-- The text of a schema difference. -/
def message : SchemaIssue → String
  | .columnCount e f => "expected " ++ toString e ++ " columns, found " ++ toString f
  | .columnName e f => "expected column '" ++ e ++ "', found '" ++ f ++ "'"
  | .columnKind n a b =>
    "column '" ++ n ++ "' is " ++ a.name ++ " in one frame and " ++ b.name ++ " in another"

end SchemaIssue

/-- What can go wrong with the columns of a frame. -/
inductive FrameError where
  /-- No column has this name. -/
  | missingColumn (name : String)
  /-- The column has another kind than asked for. -/
  | columnType (name : String) (expected actual : ColumnKind)
  /-- The column's length is not the index's. -/
  | columnLength (name : String) (expected actual : Nat)
  /-- Frames to be joined have different columns. -/
  | schemaMismatch (issue : SchemaIssue)
  deriving DecidableEq, Repr

namespace FrameError

/-- The text of a frame error. -/
def message : FrameError → String
  | .missingColumn n => "Missing required column '" ++ n ++ "'"
  | .columnType n e a => "Column '" ++ n ++ "' has type " ++ a.name ++ ", expected " ++ e.name
  | .columnLength n e a =>
    "Column '" ++ n ++ "' has " ++ toString a ++ " rows, expected " ++ toString e
  | .schemaMismatch i => "Schema mismatch: " ++ i.message

end FrameError

/-- The default name of the index. -/
def defaultIndexName : String := "time"

/-- A table indexed by time. -/
structure Frame where
  indexName : String := defaultIndexName
  index : Array Timestamp := #[]
  columns : List (String × Column) := []
  deriving Inhabited

namespace Frame

/-- The frame of an index with no columns. -/
def ofIndex (index : Array Timestamp) : Frame := { index }

/-- The number of rows. -/
def size (f : Frame) : Nat := f.index.size

/-- Whether the frame has no rows. -/
def isEmpty (f : Frame) : Bool := f.index.isEmpty

/-- The same frame with another index name. -/
def withIndexName (f : Frame) (name : String) : Frame := { f with indexName := name }

/-- Adds a column, replacing one of the same name in its place; the column must have one
entry per row. -/
def insertColumn (f : Frame) (name : String) (c : Column) : Except FrameError Frame :=
  if c.size ≠ f.size then .error (.columnLength name f.size c.size)
  else if f.columns.any (·.1 == name) then
    .ok { f with columns := f.columns.map fun m => if m.1 == name then (name, c) else m }
  else .ok { f with columns := f.columns ++ [(name, c)] }

/-- The frame of an index name, an index and columns added in order. -/
def ofParts (indexName : String) (index : Array Timestamp) (columns : List (String × Column)) :
    Except FrameError Frame :=
  columns.foldlM (fun f (n, c) => f.insertColumn n c) { indexName, index }

/-- The same columns with no rows. -/
def emptyLike (f : Frame) : Frame :=
  { f with index := #[], columns := f.columns.map fun (n, c) => (n, c.emptyLike) }

/-- The names of the columns, in order. -/
def columnNames (f : Frame) : List String := f.columns.map (·.1)

/-- Whether a column has this name. -/
def hasColumn (f : Frame) (name : String) : Bool := f.columns.any (·.1 == name)

/-- The column of this name. -/
def column (f : Frame) (name : String) : Except FrameError Column :=
  match f.columns.find? (·.1 == name) with
  | some (_, c) => .ok c
  | none => .error (.missingColumn name)

/-- The column of this name, which must hold doubles. -/
def floatColumn (f : Frame) (name : String) : Except FrameError (Array Double) := do
  match ← f.column name with
  | .float vs => pure vs
  | c => throw (.columnType name .float c.kind)

/-- The column of this name, which must hold texts. -/
def textColumn (f : Frame) (name : String) : Except FrameError (Array String) := do
  match ← f.column name with
  | .text vs => pure vs
  | c => throw (.columnType name .text c.kind)

/-- The first timestamp of the index. -/
def first? (f : Frame) : Option Timestamp := f.index[0]?

/-- The last timestamp of the index. -/
def last? (f : Frame) : Option Timestamp := f.index.back?

/-- Whether the index never goes back in time. -/
def isSorted (f : Frame) : Bool :=
  let ts := f.index.toList
  (ts.zip ts.tail).all fun (a, b) => a ≤ b

/-- The rows at the given positions, in the given order. -/
def takeRows (f : Frame) (rows : List Nat) : Frame :=
  { f with index := rows.toArray.map (fun i => f.index.getD i default),
           columns := f.columns.map fun (n, c) => (n, c.takeRows rows) }

/-- The rows whose instant lies in `[start, stop]`. -/
def filterRange (f : Frame) (start stop : Timestamp) : Frame :=
  f.takeRows ((List.range f.size).filter fun i =>
    match f.index[i]? with
    | some t => start ≤ t && t ≤ stop
    | none => false)

/-- The positions of the rows in order of their instants, ties in their order. -/
def sortedRows (f : Frame) : List Nat :=
  (List.range f.size).mergeSort fun i j => f.index.getD i default ≤ f.index.getD j default

/-- The rows in order of their instants, ties in their order. -/
def sortByIndex (f : Frame) : Frame := if f.isSorted then f else f.takeRows f.sortedRows

/-- The text of a frame: its row count, index name and column names. -/
def display (f : Frame) : String :=
  "Frame(rows: " ++ toString f.size ++ ", index: " ++ f.indexName ++ ", columns: [" ++
    ", ".intercalate f.columnNames ++ "])"

end Frame

end FrameCache
