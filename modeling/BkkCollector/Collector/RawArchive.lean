import BkkCollector.Config

/-! # Raw archival

Which poll's response goes into the raw log, and the repairs that come first: a path whose last
append or repair failed is repaired before anything is appended to it. The operations on files are
a parameter, so that the same code can be run against outcomes and against a disk. -/

namespace BkkCollector.Collector.RawArchive

open BkkCollector.Python.Objects BkkCollector.Config

/-- The raw log of a feed and a UTC date. -/
structure RawPath where
  feed : Feed
  date : String
  deriving DecidableEq

/-- `str(path.relative_to(data_dir))`. -/
def RawPath.text (p : RawPath) : String :=
  "raw/" ++ p.feed.name ++ "/date=" ++ p.date ++ "/" ++ p.feed.name ++ ".rawlog"

/-- The call sites of `_archive_raw` in `process_result`. -/
inductive Attempt where
  | regular
  | auxiliary
  | fallback
  | journalFallback
  deriving DecidableEq

/-- What the collector remembers of raw archival: when each feed was last archived, and the paths
that need a repair. -/
structure RawMemory where
  lastRawArchiveMonotonic : Feed → Option ℚ := fun _ => none
  rawNeedsRepair : List RawPath := []

/-- `raw_needs_repair.add(path)`. -/
def RawMemory.needRepair (r : RawMemory) (path : RawPath) : RawMemory :=
  { r with rawNeedsRepair := r.rawNeedsRepair.insert path }

/-- `raw_needs_repair.discard(path)`. -/
def RawMemory.repaired (r : RawMemory) (path : RawPath) : RawMemory :=
  { r with rawNeedsRepair := r.rawNeedsRepair.filter (· ≠ path) }

/-- The operations of raw archival. `iterate` is the order in which the set of paths is gone
through. -/
structure RawOps (m : Type → Type) where
  monotonic : Attempt → m ℚ
  iterate : Attempt → List RawPath → List RawPath
  repair : Attempt → RawPath → m (Except PyError (Option String))
  append : Attempt → RawPath → ℚ → List UInt8 → m (Except PyError Unit)

/-- `(raw_archived, raw_ok, raw_error)`; the error is the exception `_redact_error` is applied to. -/
structure RawOutcome where
  archived : Bool
  ok : Bool
  error : Option PyError := none

/-- Is a response due for archival by the feed's raw interval. -/
def isDue (c : CollectorConfig) (memory : RawMemory) (feed : Feed) (nowMonotonic : ℚ) : Bool :=
  (memory.lastRawArchiveMonotonic feed).all fun last =>
    c.rawArchiveIntervals feed ≤ nowMonotonic - last

variable {m : Type → Type} [Monad m]

/-- The repairs before an append to `rawPath`: one that fails is passed over, unless it is that of
`rawPath` itself. -/
def repairPending (ops : RawOps m) (attempt : Attempt) (rawPath : RawPath) :
    List RawPath → RawMemory → m (RawMemory × Except PyError Unit)
  | [], memory => pure (memory, .ok ())
  | pendingPath :: pending, memory => do
    if pendingPath.feed ≠ rawPath.feed then
      repairPending ops attempt rawPath pending memory
    else
      match ← ops.repair attempt pendingPath with
      | .error e =>
        if pendingPath = rawPath then pure (memory, .error e)
        else repairPending ops attempt rawPath pending memory
      | .ok _ => repairPending ops attempt rawPath pending (memory.repaired pendingPath)

/-- `_archive_raw`. -/
def archiveRaw (c : CollectorConfig) (ops : RawOps m) (attempt : Attempt) (memory : RawMemory)
    (rawPath : RawPath) (timestamp : ℚ) (payload : List UInt8) (force : Bool) :
    m (RawMemory × RawOutcome) := do
  let nowMonotonic ← ops.monotonic attempt
  if !(force || isDue c memory rawPath.feed nowMonotonic) then
    pure (memory, { archived := false, ok := true })
  else
    let pending := ops.iterate attempt memory.rawNeedsRepair
    let (memory, repairs) ← repairPending ops attempt rawPath pending memory
    match repairs with
    | .error e =>
      pure (memory.needRepair rawPath, { archived := false, ok := false, error := some e })
    | .ok () =>
      match ← ops.append attempt rawPath timestamp payload with
      | .error e =>
        pure (memory.needRepair rawPath, { archived := false, ok := false, error := some e })
      | .ok () =>
        pure ({ memory with
            lastRawArchiveMonotonic :=
              Function.update memory.lastRawArchiveMonotonic rawPath.feed (some nowMonotonic) },
          { archived := true, ok := true })

/-! ### Start-up -/

/-- The existing logs of a feed that start-up validates: today's, and the latest one before it. -/
def recoveryCandidates (today : String) (dates : List String) : List String :=
  let prior := dates.filter (· < today)
  dates.filter fun date => date = today ∨ (date ∈ prior ∧ prior.all (· ≤ date))

/-- `recover_recent_raw_tails`, for one feed with the logs of `dates`: a log whose repair fails is
remembered. -/
def recoverRecentRawTails (repair : RawPath → m (Except PyError (Option String))) (feed : Feed) :
    List String → RawMemory → m RawMemory
  | [], memory => pure memory
  | date :: dates, memory => do
    match ← repair ⟨feed, date⟩ with
    | .error _ => recoverRecentRawTails repair feed dates (memory.needRepair ⟨feed, date⟩)
    | .ok _ => recoverRecentRawTails repair feed dates memory

end BkkCollector.Collector.RawArchive
