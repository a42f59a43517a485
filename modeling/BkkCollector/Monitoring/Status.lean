import BkkCollector.Collector.ProcessResult
import BkkCollector.Python.Documents

/-! # The status file

`HealthMonitor.write_status`: what the monitor remembers of the feeds, the scheduler's snapshot and
the state of the disk and the Parquet worker become reasons and warnings. A reason makes the
collector unhealthy, a warning does not.

Beside the freshness state a feed keeps the evidence of its last response, which the readers of the
status file look at. A failed request leaves both as they are. -/

namespace BkkCollector.Monitoring.Status

open BkkCollector.Python.Objects BkkCollector.Python.Documents BkkCollector.Python.Collections
open BkkCollector.Config BkkCollector.Monitoring BkkCollector.Collector.ProcessResult
open BkkCollector.Collector.RawArchive BkkCollector.Realtime.Dedup

/-! ### Recorded state -/

/-- What `record_success` keeps of a response beside the freshness state. -/
structure Evidence where
  parseOk : Bool
  presenceOk : Bool
  changeTrackingOk : Bool
  changeTrackingFailureFlag : Option Flag
  rawOk : Bool
  spoolOk : Bool
  maxEntityTimestamp : Option ℤ
  entityCount : Option ℕ
  deriving DecidableEq

/-- The evidence of a response. -/
def evidenceOf (s : Success) : Evidence where
  parseOk := s.parseOk
  presenceOk := s.presenceOk
  changeTrackingOk := s.changeTrackingOk
  changeTrackingFailureFlag := s.changeTrackingFailureFlag
  rawOk := s.rawOk
  spoolOk := s.spoolOk
  maxEntityTimestamp := s.maxEntityTimestamp
  entityCount := s.entityCount

/-- The state of a feed. -/
structure FeedState where
  health : FeedHealth := {}
  evidence : Option Evidence := none

/-- `monitor.feeds`, with the limits of the monitor. -/
structure Recorded where
  monitor : HealthMonitor
  evidence : Feed → Option Evidence := fun _ => none

namespace Recorded

variable (r : Recorded)

/-- The state of a feed. -/
def state (feed : Feed) : FeedState := ⟨r.monitor.feeds feed, r.evidence feed⟩

/-- `record_success`. -/
def recordSuccess (feed : Feed) (s : Success) : Recorded where
  monitor := (r.monitor.recordSuccess feed s).1
  evidence := Function.update r.evidence feed (some (evidenceOf s))

/-- `record_failure`. -/
def recordFailure (feed : Feed) (error : String) : Recorded :=
  { r with monitor := r.monitor.recordFailure feed error }

/-- `monitor.feeds[feed]["poll_journal_ok"] = ok`. -/
def journal (feed : Feed) (ok : Bool) : Recorded :=
  { r with monitor := r.monitor.journal feed ok }

end Recorded

/-! ### Snapshots -/

/-- What the scheduler's snapshot says about a feed; an entry can be missing or `None`. -/
structure Schedule where
  intervalSeconds : Option ℚ
  inFlightSeconds : Option ℚ
  missedSinceLastRequest : Option ℤ
  secondsSinceMissedDeadline : Option ℚ
  nextDeadlineInSeconds : Option ℚ

/-- What the Parquet worker's snapshot says. -/
structure WorkerSnapshot where
  alive : Bool
  activeSeconds : ℚ
  errors : List String

/-- The arguments of `write_status`. -/
structure StatusArguments where
  nowTs : ℚ
  pollId : String
  diskFreeBytes : ℤ
  diskWarnBytes : ℤ
  diskCriticalBytes : ℤ
  pendingSpoolSegments : ℕ
  parquetFlushErrors : List String
  cycleErrors : List String
  scheduler : Feed → Option Schedule
  parquetWorker : Option WorkerSnapshot

/-! ### Reasons and warnings -/

/-- `flag.endswith("_warning")`. -/
def isWarning (flag : String) : Bool := "_warning".toList.isSuffixOf flag.toList

/-- `f"{feed_name}:{code}"`. -/
def labelled (feed : Feed) (code : String) : String := feed.name ++ ":" ++ code

/-- `if c: codes.append(code)`. -/
def codeIf (c : Prop) [Decidable c] (code : String) : List String := if c then [code] else []

namespace Recorded

variable (r : Recorded) (a : StatusArguments) (feed : Feed)

/-- `interval`. -/
def interval : ℚ := ((a.scheduler feed).bind Schedule.intervalSeconds).getD 0

/-- `absence`. -/
def absence : Option ℚ :=
  (r.monitor.feeds feed).lastSuccessTimestamp.map fun last => max 0 (a.nowTs - last)

/-- `absence_limit`. -/
def absenceLimit : ℚ := max r.monitor.absentSeconds (interval a feed * 3)

/-- Is the request of a feed in flight for longer than `limit`. -/
def inFlightOver (s : Schedule) (limit : ℚ) : Prop :=
  interval a feed ≠ 0 ∧ ∃ x ∈ s.inFlightSeconds, limit < x

instance (s : Schedule) (limit : ℚ) : Decidable (inFlightOver a feed s limit) := by
  unfold inFlightOver
  cases s.inFlightSeconds with
  | none => exact isFalse fun ⟨_, x, hx, _⟩ => by cases hx
  | some x =>
    exact decidable_of_iff (interval a feed ≠ 0 ∧ limit < x)
      ⟨fun h => ⟨h.1, x, rfl, h.2⟩, fun ⟨h, y, hy, hlt⟩ => ⟨h, by cases hy; exact hlt⟩⟩

/-- The reasons from the schedule of a feed. -/
def scheduleReasons (s : Schedule) : List String :=
  codeIf (inFlightOver a feed s (max (interval a feed * 3) 60)) "request_stuck" ++
    codeIf (interval a feed ≠ 0 ∧ s.nextDeadlineInSeconds.any fun x => x < -interval a feed)
      "scheduler_overdue"

/-- The warnings from the schedule of a feed. -/
def scheduleWarnings (s : Schedule) : List String :=
  codeIf (inFlightOver a feed s (interval a feed)) "request_exceeds_cadence" ++
    codeIf (s.missedSinceLastRequest.getD 0 ≠ 0 ∨ s.secondsSinceMissedDeadline.any fun x => x < 300)
      "scheduler_missed_deadline"

/-- The reasons of a feed, without its name. -/
def reasonCodes : List String :=
  codeIf ((absence r a feed).all fun x => absenceLimit r a feed < x) "absent" ++
    codeIf ((r.monitor.feeds feed).consecutiveFailures ≠ 0) "http_failed" ++
    codeIf ((r.monitor.feeds feed).pollJournalOk = some false) "poll_journal_failed" ++
    ((r.monitor.feeds feed).freshnessFlags.filter fun flag => !isWarning flag) ++
    ((a.scheduler feed).map (scheduleReasons a feed)).getD []

/-- The warnings of a feed, without its name. -/
def warningCodes : List String :=
  ((r.monitor.feeds feed).freshnessFlags.filter isWarning) ++
    ((a.scheduler feed).map (scheduleWarnings a feed)).getD []

end Recorded

/-- The reasons that are not about a feed. -/
def commonReasons (a : StatusArguments) : List String :=
  (if a.diskFreeBytes < a.diskCriticalBytes then ["disk:critical"]
    else codeIf (a.diskFreeBytes < a.diskWarnBytes) "disk:low") ++
    codeIf (a.parquetFlushErrors ≠ []) "parquet_flush_failed" ++
    codeIf (a.cycleErrors ≠ []) "cycle_storage_error" ++
    match a.parquetWorker with
    | none => []
    | some worker =>
      codeIf (worker.alive = false) "parquet_worker_stopped" ++
        codeIf (600 < worker.activeSeconds) "parquet_worker_stuck"

/-! ### The document -/

/-- A member whose value is `None` where there is none. -/
def orNull (x : Option Doc) : Doc := x.getD .null

/-- A member that is missing where there is none. -/
def member (key : String) (x : Option Doc) : List (String × Doc) :=
  match x with
  | some d => [(key, d)]
  | none => []

/-- A list of texts. -/
def texts (l : List String) : Doc := .list (l.map Doc.str)

/-- A number of seconds. -/
def seconds (q : ℚ) : Doc := .float (some q)

/-- The snapshot of a feed's schedule. -/
def Schedule.doc (s : Schedule) : Doc :=
  .dict [("interval_seconds", orNull (s.intervalSeconds.map seconds)),
    ("in_flight_seconds", orNull (s.inFlightSeconds.map seconds)),
    ("missed_since_last_request", orNull (s.missedSinceLastRequest.map Doc.int)),
    ("seconds_since_missed_deadline", orNull (s.secondsSinceMissedDeadline.map seconds)),
    ("next_deadline_in_seconds", orNull (s.nextDeadlineInSeconds.map seconds))]

/-- The snapshot of the Parquet worker. -/
def WorkerSnapshot.doc (w : WorkerSnapshot) : Doc :=
  .dict [("alive", .bool w.alive), ("active_seconds", seconds w.activeSeconds),
    ("errors", texts w.errors)]

/-- The evidence of a response, as it stands in the state of its feed. -/
def Evidence.members (e : Evidence) : List (String × Doc) :=
  [("parse_ok", .bool e.parseOk), ("presence_ok", .bool e.presenceOk),
    ("change_tracking_ok", .bool e.changeTrackingOk),
    ("change_tracking_failure_flag",
      orNull (e.changeTrackingFailureFlag.map fun flag => .str flag.name)),
    ("raw_ok", .bool e.rawOk), ("spool_ok", .bool e.spoolOk),
    ("max_entity_timestamp", orNull (e.maxEntityTimestamp.map Doc.int)),
    ("entity_count", orNull (e.entityCount.map fun n => .int n))]

/-- The state of a feed in the status. -/
def Recorded.stateDoc (r : Recorded) (a : StatusArguments) (feed : Feed) : Doc :=
  let h := r.monitor.feeds feed
  .dict (member "last_success_timestamp" (h.lastSuccessTimestamp.map seconds) ++
    member "header_timestamp" (h.headerTimestamp.map Doc.int) ++
    [("consecutive_failures", .int h.consecutiveFailures)] ++
    member "freshness_flags" ((r.evidence feed).map fun _ => texts h.freshnessFlags) ++
    member "poll_journal_ok" (h.pollJournalOk.map Doc.bool) ++
    ((r.evidence feed).map Evidence.members).getD [] ++
    [("seconds_since_success", orNull ((Recorded.absence r a feed).map seconds)),
      ("absence_threshold_seconds", seconds (Recorded.absenceLimit r a feed))] ++
    member "scheduler" ((a.scheduler feed).map Schedule.doc))

/-- The status. -/
structure StatusFile where
  updatedTimestamp : ℚ
  healthy : Bool
  reasons : List String
  warnings : List String
  doc : Doc

/-- `write_status`: the status it returns and writes; `utcIso` formats a time. -/
def writeStatus (utcIso : ℚ → String) (r : Recorded) (a : StatusArguments) : StatusFile :=
  let reasons := feedNames.flatMap (fun feed =>
    (r.reasonCodes a feed).map (labelled feed)) ++ commonReasons a
  let warnings := feedNames.flatMap fun feed => (r.warningCodes a feed).map (labelled feed)
  { updatedTimestamp := a.nowTs
    healthy := reasons.isEmpty
    reasons := sortedSet reasons
    warnings := sortedSet warnings
    doc := .dict [("version", .int 1), ("updated_at", .str (utcIso a.nowTs)),
      ("updated_timestamp", seconds a.nowTs), ("poll_id", .str a.pollId),
      ("healthy", .bool reasons.isEmpty), ("reasons", texts (sortedSet reasons)),
      ("warnings", texts (sortedSet warnings)), ("disk_free_bytes", .int a.diskFreeBytes),
      ("disk_warn_bytes", .int a.diskWarnBytes), ("disk_critical_bytes", .int a.diskCriticalBytes),
      ("pending_spool_segments", .int a.pendingSpoolSegments),
      ("parquet_flush_errors", texts a.parquetFlushErrors),
      ("parquet_worker", orNull (a.parquetWorker.map WorkerSnapshot.doc)),
      ("cycle_errors", texts a.cycleErrors),
      ("scheduler", .dict (feedNames.flatMap fun feed =>
        member feed.name ((a.scheduler feed).map Schedule.doc))),
      ("feeds", .dict (feedNames.map fun feed => (feed.name, r.stateDoc a feed)))] }

end BkkCollector.Monitoring.Status
