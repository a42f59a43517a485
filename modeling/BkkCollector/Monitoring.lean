import BkkCollector.Config
import BkkCollector.Python.Collections

/-! # Feed health

The per-feed state a `HealthMonitor` keeps and persists, and the freshness flags of a response. -/

namespace BkkCollector.Monitoring

open BkkCollector.Config BkkCollector.Python.Collections

/-- The freshness and failure flags. -/
inductive Flag where
  | sourceTimestampStale
  | sourceTimestampFrozen
  | sourceTimestampUnchangedWarning
  | payloadFrozen
  | payloadUnchangedWarning
  | protobufParseFailed
  | changeTrackerSignalMissing
  | changeTrackerFailed
  | entityTimestampStale
  | rawArchiveFailed
  | derivedSpoolFailed
  | tripupdatesPresenceFailed
  deriving DecidableEq

/-- The text of a flag. -/
def Flag.name : Flag → String
  | .sourceTimestampStale => "source_timestamp_stale"
  | .sourceTimestampFrozen => "source_timestamp_frozen"
  | .sourceTimestampUnchangedWarning => "source_timestamp_unchanged_warning"
  | .payloadFrozen => "payload_frozen"
  | .payloadUnchangedWarning => "payload_unchanged_warning"
  | .protobufParseFailed => "protobuf_parse_failed"
  | .changeTrackerSignalMissing => "change_tracker_signal_missing"
  | .changeTrackerFailed => "change_tracker_failed"
  | .entityTimestampStale => "entity_timestamp_stale"
  | .rawArchiveFailed => "raw_archive_failed"
  | .derivedSpoolFailed => "derived_spool_failed"
  | .tripupdatesPresenceFailed => "tripupdates_presence_failed"

/-- What is remembered of a feed. -/
structure FeedHealth where
  lastSuccessTimestamp : Option ℚ := none
  headerTimestamp : Option ℤ := none
  contentSha256 : Option String := none
  payloadSha256 : Option String := none
  headerUnchangedSince : Option ℚ := none
  payloadUnchangedSince : Option ℚ := none
  consecutiveFailures : ℕ := 0
  freshnessFlags : List String := []
  pollJournalOk : Option Bool := none
  lastError : Option String := none

/-- A `HealthMonitor`: its limits and its state. -/
structure HealthMonitor where
  staleSeconds : ℚ
  absentSeconds : ℚ
  frozenSeconds : ℚ
  alertsFrozenSeconds : ℚ
  feeds : Feed → FeedHealth := fun _ => {}

/-- `evaluate_freshness`. -/
def evaluateFreshness (nowTs : ℚ) (headerTimestamp : Option ℤ) (headerUnchangedSince
    payloadUnchangedSince staleSeconds frozenSeconds : ℚ) : List Flag :=
  (match headerTimestamp with
    | some t => if staleSeconds < nowTs - t then [.sourceTimestampStale] else []
    | none => []) ++
  (if frozenSeconds < nowTs - payloadUnchangedSince then [.payloadFrozen] else []) ++
  (if frozenSeconds < nowTs - headerUnchangedSince then [.sourceTimestampFrozen] else [])

/-- What `record_success` is told about a response. -/
structure Success where
  nowTs : ℚ
  headerTimestamp : Option ℤ
  contentSha256 : String
  maxEntityTimestamp : Option ℤ
  parseOk : Bool
  presenceOk : Bool
  changeTrackingOk : Bool
  changeTrackingFailureFlag : Option Flag
  rawOk : Bool
  spoolOk : Bool
  entityCount : Option ℕ

/-- Alerts are event-driven: an unchanged source is a warning at most. -/
def relaxAlerts (entityCount : Option ℕ) (flags : List Flag) : List Flag :=
  let headerStale := flags.any fun f => f = .sourceTimestampStale ∨ f = .sourceTimestampFrozen
  let kept := flags.filter fun f => f ≠ .sourceTimestampStale ∧ f ≠ .sourceTimestampFrozen
  let flags : List Flag := kept ++ if headerStale then [.sourceTimestampUnchangedWarning] else []
  if Flag.payloadFrozen ∈ flags then
    flags.filter (· ≠ .payloadFrozen) ++
      if entityCount.getD 0 ≠ 0 then [.payloadUnchangedWarning] else []
  else flags

namespace HealthMonitor

variable (m : HealthMonitor)

/-- The state of one feed replaced. -/
def set (feed : Feed) (state : FeedHealth) : HealthMonitor :=
  { m with feeds := Function.update m.feeds feed state }

/-- The state of a feed after it saw this content and header. -/
def seen (feed : Feed) (s : Success) : FeedHealth :=
  let state := m.feeds feed
  let previous := state.contentSha256.orElse fun _ => state.payloadSha256
  { state with
    payloadUnchangedSince :=
      if previous ≠ some s.contentSha256 then some s.nowTs
      else some (state.payloadUnchangedSince.getD s.nowTs)
    headerUnchangedSince :=
      if state.headerTimestamp ≠ s.headerTimestamp then some s.nowTs
      else some (state.headerUnchangedSince.getD s.nowTs) }

/-- The flags of a response. -/
def successFlags (feed : Feed) (s : Success) : List Flag :=
  let state := m.seen feed s
  let frozen := if feed = .alerts then m.alertsFrozenSeconds else m.frozenSeconds
  let fresh := evaluateFreshness s.nowTs s.headerTimestamp
    (state.headerUnchangedSince.getD s.nowTs) (state.payloadUnchangedSince.getD s.nowTs)
    m.staleSeconds frozen
  (if feed = .alerts then relaxAlerts s.entityCount fresh else fresh) ++
  (if !s.parseOk then [.protobufParseFailed] else []) ++
  (if !s.changeTrackingOk then [s.changeTrackingFailureFlag.getD .changeTrackerFailed] else []) ++
  (match s.maxEntityTimestamp with
    | some t =>
      if feed ≠ .alerts ∧ m.staleSeconds < s.nowTs - t then [.entityTimestampStale] else []
    | none => []) ++
  (if !s.rawOk then [.rawArchiveFailed] else []) ++
  (if !s.spoolOk then [.derivedSpoolFailed] else []) ++
  (if !s.presenceOk then [.tripupdatesPresenceFailed] else [])

/-- `record_success` up to `_save_state`: the state to save, and the flags it returns. -/
def recordSuccess (feed : Feed) (s : Success) : HealthMonitor × List String :=
  let flags := sortedSet ((m.successFlags feed s).map Flag.name)
  (m.set feed
    { m.seen feed s with
      lastSuccessTimestamp := some s.nowTs
      headerTimestamp := s.headerTimestamp
      contentSha256 := some s.contentSha256
      consecutiveFailures := 0
      freshnessFlags := flags }, flags)

/-- `record_failure` up to `_save_state`. -/
def recordFailure (feed : Feed) (error : String) : HealthMonitor :=
  m.set feed
    { m.feeds feed with
      lastError := some error
      consecutiveFailures := (m.feeds feed).consecutiveFailures + 1 }

/-- `monitor.feeds[feed]["poll_journal_ok"] = ok`. -/
def journal (feed : Feed) (ok : Bool) : HealthMonitor :=
  m.set feed { m.feeds feed with pollJournalOk := some ok }

end HealthMonitor

end BkkCollector.Monitoring
