import FrameCache.Store.Cache

/-!
# Fetching through the cache

A fetch asks a query source for the rows of a window and stores what it answers. With a
step, the window is walked in chunks of that length; each chunk starts where the rows
already fetched end, so a source that answers more than was asked is not asked again for
it, and the answer is read back from the cache. A fetch of the latest rows starts at the
cache's newest timestamp, or a fixed lookback before now when the cache is empty, and ends
at now truncated to the minute.

The source is a function of the number of earlier questions and the window, so a scripted
source and a live one are treated alike; every question is logged. The wall clock that dates
each stored partition is a function too, of the number of questions asked before the store.
-/

namespace FrameCache

/-- A source of rows: asked for the `n`-th time (counting from zero) for the rows from
`start` to `stop`, it answers a frame, nothing, or an error. -/
abbrev Query := Nat → Timestamp → Timestamp → Except CacheError (Option Frame)

/-- The wall clock of a fetch: `clock n` is the creation time a partition stored after `n`
questions to the source is given. -/
abbrev Clock := Nat → CreatedAt

/-- A cache together with the log of the questions asked of the source. -/
structure FetchState where
  cache : Cache
  calls : Array (Timestamp × Timestamp)

/-- Fetch steps; a failed step keeps what was stored and asked before it. -/
abbrev FetchM := EStateM CacheError FetchState

/-- How a fetch splits its window and reduces its answer. -/
structure FetchOptions where
  /-- The length of each chunk, if the window is walked in chunks. -/
  step : Option Span := none
  /-- The columns whose repetition is dropped from the answer. -/
  dedup : Option (List String) := none

namespace Fetch

/-- Runs a cache operation on the cache of the fetch. -/
def onCache {α} (x : CacheM α) : FetchM α := fun s =>
  match x s.cache with
  | .ok a c => .ok a { s with cache := c }
  | .error e c => .error e { s with cache := c }

/-- Fails with the error of a pure step. -/
def lift {α} (x : Except CacheError α) : FetchM α :=
  match x with
  | .ok a => pure a
  | .error e => throw e

/-- Stores an answer, made at the clock's reading after the questions asked so far. -/
def storeAnswer (clock : Clock) (f : Frame) : FetchM Unit := fun s =>
  discard (onCache (Cache.store (clock s.calls.size) f)) s

/-- Asks the source for a window and logs the question. -/
def ask (q : Query) (start stop : Timestamp) : FetchM (Option Frame) := do
  let s ← getThe FetchState
  set { s with calls := s.calls.push (start, stop) }
  lift (q s.calls.size start stop)

/-- The latest timestamp of a frame's index; of equal ones, the last. -/
def latest (f : Frame) (default : Timestamp) : Timestamp :=
  match f.first? with
  | some t => f.index.foldl Timestamp.later t
  | none => default

/-- One chunk after another from `t` while `t` is before `stop`. `last` is where the rows
fetched so far end; a chunk that it already covers is passed over. -/
def walk (q : Query) (clock : Clock) (stop : Timestamp) (step : TimeDelta) :
    Nat → Timestamp → Timestamp → FetchM Unit
  | 0, _, _ => pure ()
  | fuel + 1, t, last =>
    if t < stop then
      match t.addDelta? step with
      | none => throw (.invalidConfiguration ("fetch step " ++ step.text ++ " from " ++ t.display
          ++ " leaves the representable time range"))
      | some chunkEnd =>
        let chunkStart := t.later last
        if chunkEnd ≤ chunkStart then walk q clock stop step fuel chunkEnd last
        else do
          let last ← match ← ask q chunkStart chunkEnd with
            | some f =>
              if f.isEmpty then pure chunkEnd
              else do
                storeAnswer clock f
                pure (latest f chunkEnd)
            | none => pure chunkEnd
          walk q clock stop step fuel chunkEnd last
    else pure ()

/-- The rows of `[start, stop]` asked of the source at once: its answer is stored and returned,
with the repetitions of the `dedup` columns dropped. -/
def fetchOnce (q : Query) (clock : Clock) (start stop : Timestamp) (dedup : Option (List String)) :
    FetchM (Option Frame) := do
  match ← ask q start stop with
  | some f =>
    if f.isEmpty then return none
    storeAnswer clock f
    match dedup with
    | some ks => some <$> lift ((f.dedup ks).mapError .frame)
    | none => return some f
  | none => return none

/-- The rows of `[start, stop]` walked in chunks of `span`, which `step?` holds as a span of
time when it is a usable one; the answer is read back from the cache. -/
def fetchSteps (q : Query) (clock : Clock) (start stop : Timestamp) (span : Span)
    (step? : Option TimeDelta)
    (dedup : Option (List String)) : FetchM (Option Frame) := do
  let some step := step?
    | throw (.invalidConfiguration ("fetch step " ++ span.text ++ " is not usable"))
  walk q clock stop step (start.stepBound stop step) start start
  let s ← getThe FetchState
  lift (s.cache.get (some start) (some stop) dedup)

/-- The rows of `[start, stop]` through the cache. Without a step the source is asked once
and its answer stored and returned; with a step the window is walked in chunks and the
answer read back from the cache. -/
def fetch (q : Query) (clock : Clock) (start stop : Timestamp) (opts : FetchOptions) :
    FetchM (Option Frame) :=
  match opts.step with
  | none => fetchOnce q clock start stop opts.dedup
  | some span =>
    fetchSteps q clock start stop span ((TimeDelta.ofSpan? span).filter (0 < ·.nanos)) opts.dedup

/-- One minute. -/
def minute : TimeDelta := TimeDelta.ofWholeSeconds 60

/-- The rows newer than the cache up to `now` truncated to the minute. -/
def fetchLatestAt (q : Query) (clock : Clock) (now : Timestamp) (opts : FetchOptions) :
    FetchM (Option Frame) := do
  lift (CacheError.requireLocal now)
  let stop ← match now.truncate minute with
    | .ok t => pure t
    | .error e => throw (.invalidConfiguration ("cannot truncate " ++ now.display ++ ": " ++ e.message))
  let c := (← getThe FetchState).cache
  let start ← match c.newest with
    | some n => pure n
    | none =>
      match stop.subDelta? c.emptyLookback with
      | some s => pure s
      | none => throw (.invalidConfiguration ("empty lookback " ++ c.emptyLookback.text ++ " before "
          ++ stop.display ++ " leaves the representable time range"))
  if stop ≤ start then return none
  fetch q clock start stop opts

end Fetch

end FrameCache
