import FrameCache.Frame.Basic

/-!
# Joining frames

`Frame.concat` puts frames one after another: the rows of each follow those of the ones
before it, under the first frame's index name. All frames must have the same columns: the
same number, the same names in the same places, and the same kinds. The first difference
found, frame by frame and column by column, is reported.
-/

namespace FrameCache

namespace Frame

/-- The rows of `g` after those of `f`, when their columns agree. -/
def append (f g : Frame) : Except FrameError Frame := do
  if g.columns.length ≠ f.columns.length then
    throw (.schemaMismatch (.columnCount f.columns.length g.columns.length))
  let columns ← (f.columns.zip g.columns).mapM fun ((n, c), (m, d)) => do
    if n ≠ m then throw (.schemaMismatch (.columnName n m))
    match c.append? d with
    | some e => pure (n, e)
    | none => throw (.schemaMismatch (.columnKind n c.kind d.kind))
  return { f with index := f.index ++ g.index, columns }

/-- All frames one after another, or none for no frames. -/
def concat : List Frame → Except FrameError (Option Frame)
  | [] => .ok none
  | f :: fs => some <$> fs.foldlM append f

end Frame

end FrameCache
