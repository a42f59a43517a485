import Mathlib.Algebra.Order.Ring.Rat
import BkkCollector.Python.Objects

/-! # Configuration

The feeds, and the collector's settings with the checks of `CollectorConfig.__post_init__`. A
`CollectorConfig` is a value that passed them. -/

namespace BkkCollector.Config

open BkkCollector.Python.Objects

/-- `FEED_NAMES`. -/
inductive Feed where
  | vehiclepositions
  | tripupdates
  | alerts
  deriving DecidableEq

/-- The name of a feed, in paths and messages. -/
def Feed.name : Feed → String
  | .vehiclepositions => "vehiclepositions"
  | .tripupdates => "tripupdates"
  | .alerts => "alerts"

/-- `FEED_NAMES`, in their order. -/
def feedNames : List Feed := [.vehiclepositions, .tripupdates, .alerts]

/-- `DEFAULT_FEED_INTERVALS`. -/
def defaultFeedInterval : Feed → ℚ
  | .vehiclepositions => 10
  | .tripupdates => 10
  | .alerts => 30

/-- `MIN_REALTIME_INTERVAL_SECONDS`. -/
def minRealtimeIntervalSeconds : ℚ := 5

/-- The numeric settings of the collector. Floats are finite ones. -/
structure CollectorSettings where
  pollIntervalSeconds : Option ℚ := none
  vehiclePositionsIntervalSeconds : Option ℚ := none
  tripUpdatesIntervalSeconds : Option ℚ := none
  alertsIntervalSeconds : Option ℚ := none
  parquetFlushSeconds : ℚ := 300
  tripupdatesRawArchiveSeconds : ℚ := 300
  tripupdatesAnalysisSampleSeconds : ℚ := 0
  delayChangeThresholdSeconds : ℤ := 15
  predictionTimeChangeThresholdSeconds : ℤ := 2
  bkkStopDistanceChangeThreshold : Option ℤ := none
  changeTrackerNullGuardRows : ℤ := 1000
  heartbeatSeconds : ℤ := 1800
  diskWarnFreeGb : ℚ := 8
  diskCriticalFreeGb : ℚ := 4
  connectTimeoutSeconds : ℚ := 5
  readTimeoutSeconds : ℚ := 15
  httpConnectRetries : ℤ := 1
  httpBackoffSeconds : ℚ := 3 / 10
  feedStaleSeconds : ℚ := 180
  feedAbsentSeconds : ℚ := 180
  frozenPayloadSeconds : ℚ := 300
  alertsFrozenPayloadSeconds : ℚ := 86400
  rawFsync : Bool := true

namespace CollectorSettings

variable (c : CollectorSettings)

/-- The feed-specific interval settings. -/
def intervalOverride : Feed → Option ℚ
  | .vehiclepositions => c.vehiclePositionsIntervalSeconds
  | .tripupdates => c.tripUpdatesIntervalSeconds
  | .alerts => c.alertsIntervalSeconds

/-- `feed_intervals`. -/
def feedIntervals (feed : Feed) : ℚ :=
  ((c.intervalOverride feed).orElse fun _ => c.pollIntervalSeconds).getD (defaultFeedInterval feed)

/-- `raw_archive_intervals`. -/
def rawArchiveIntervals : Feed → ℚ
  | .tripupdates =>
    if 0 < c.tripupdatesAnalysisSampleSeconds then
      min c.tripupdatesRawArchiveSeconds c.tripupdatesAnalysisSampleSeconds
    else c.tripupdatesRawArchiveSeconds
  | _ => 0

/-- The tolerance for stop distances. -/
def stopDistanceTolerance : ℤ :=
  c.bkkStopDistanceChangeThreshold.getD c.delayChangeThresholdSeconds

/-- `trip_update_numeric_tolerances`. -/
def tripUpdateNumericTolerances : List (String × ℚ) :=
  [("arrival_time", c.predictionTimeChangeThresholdSeconds),
    ("departure_time", c.predictionTimeChangeThresholdSeconds),
    ("bkk_stop_distance", c.stopDistanceTolerance)]

/-- The environment variable that sets a feed's interval. -/
def intervalVariable : Feed → String
  | .vehiclepositions => "VEHICLE_POSITIONS_INTERVAL_SECONDS"
  | .tripupdates => "TRIP_UPDATES_INTERVAL_SECONDS"
  | .alerts => "ALERTS_INTERVAL_SECONDS"

/-- The settings that must be positive. -/
def positive : List (String × ℚ) :=
  [("heartbeat_seconds", c.heartbeatSeconds),
    ("change_tracker_null_guard_rows", c.changeTrackerNullGuardRows),
    ("connect_timeout_seconds", c.connectTimeoutSeconds),
    ("read_timeout_seconds", c.readTimeoutSeconds),
    ("feed_stale_seconds", c.feedStaleSeconds),
    ("feed_absent_seconds", c.feedAbsentSeconds),
    ("frozen_payload_seconds", c.frozenPayloadSeconds),
    ("alerts_frozen_payload_seconds", c.alertsFrozenPayloadSeconds)]

/-- The settings that must not be negative. -/
def nonnegative : List (String × ℚ) :=
  [("parquet_flush_seconds", c.parquetFlushSeconds),
    ("tripupdates_raw_archive_seconds", c.tripupdatesRawArchiveSeconds),
    ("tripupdates_analysis_sample_seconds", c.tripupdatesAnalysisSampleSeconds),
    ("delay_change_threshold_seconds", c.delayChangeThresholdSeconds),
    ("prediction_time_change_threshold_seconds", c.predictionTimeChangeThresholdSeconds),
    ("bkk_stop_distance_change_threshold", c.stopDistanceTolerance),
    ("disk_warn_free_gb", c.diskWarnFreeGb),
    ("disk_critical_free_gb", c.diskCriticalFreeGb),
    ("http_connect_retries", c.httpConnectRetries),
    ("http_backoff_seconds", c.httpBackoffSeconds)]

/-- The checks of `__post_init__` in their order: does the check fail, and its message. -/
def checks : List (Bool × String) :=
  (c.pollIntervalSeconds.any (· < minRealtimeIntervalSeconds),
    "POLL_INTERVAL_SECONDS must be at least 5 seconds") ::
  feedNames.map (fun feed => (decide (c.feedIntervals feed < minRealtimeIntervalSeconds),
    intervalVariable feed ++ " must be at least 5 seconds")) ++
  c.positive.map (fun p => (decide (p.2 ≤ 0), p.1 ++ " must be greater than zero")) ++
  c.nonnegative.map (fun p => (decide (p.2 < 0), p.1 ++ " must not be negative")) ++
  [(decide (c.diskWarnFreeGb < c.diskCriticalFreeGb),
    "DISK_WARN_FREE_GB must be at least DISK_CRITICAL_FREE_GB")]

/-- `__post_init__`: the first failing check raises. -/
def postInit : Except PyError Unit :=
  match c.checks.find? (·.1) with
  | some (_, message) => .error ⟨.valueError, message⟩
  | none => .ok ()

variable {c}

theorem postInit_eq_ok : c.postInit = .ok () ↔ ∀ p ∈ c.checks, p.1 = false := by
  unfold postInit
  cases h : c.checks.find? (·.1) with
  | none => simpa using h
  | some p =>
    simp only [reduceCtorEq, false_iff, not_forall]
    refine ⟨p, List.mem_of_find?_eq_some h, ?_⟩
    have := List.find?_some h
    simp [this]

theorem pos_of_postInit (h : c.postInit = .ok ()) (name : String) {q : ℚ}
    (hq : (name, q) ∈ c.positive) : 0 < q := by
  have hmem : (decide (q ≤ 0), name ++ " must be greater than zero") ∈ c.checks := by
    simp only [checks, List.mem_append]
    exact Or.inl (Or.inl (Or.inr (List.mem_map_of_mem hq)))
  exact not_le.mp (by simpa using postInit_eq_ok.mp h _ hmem)

theorem nonneg_of_postInit (h : c.postInit = .ok ()) (name : String) {q : ℚ}
    (hq : (name, q) ∈ c.nonnegative) : 0 ≤ q := by
  have hmem : (decide (q < 0), name ++ " must not be negative") ∈ c.checks := by
    simp only [checks, List.mem_append]
    exact Or.inl (Or.inr (List.mem_map_of_mem hq))
  exact not_lt.mp (by simpa using postInit_eq_ok.mp h _ hmem)

end CollectorSettings

/-- **A validated configuration.** -/
structure CollectorConfig extends CollectorSettings where
  valid : toCollectorSettings.postInit = .ok ()

namespace CollectorConfig

variable (c : CollectorConfig)

theorem heartbeat_pos : 0 < (c.heartbeatSeconds : ℚ) :=
  CollectorSettings.pos_of_postInit c.valid "heartbeat_seconds"
    (by simp [CollectorSettings.positive])

theorem nullGuardRows_pos : 0 < (c.changeTrackerNullGuardRows : ℚ) :=
  CollectorSettings.pos_of_postInit c.valid "change_tracker_null_guard_rows"
    (by simp [CollectorSettings.positive])

theorem delayThreshold_nonneg : 0 ≤ (c.delayChangeThresholdSeconds : ℚ) :=
  CollectorSettings.nonneg_of_postInit c.valid "delay_change_threshold_seconds"
    (by simp [CollectorSettings.nonnegative])

/-- Every configured tolerance is nonnegative. -/
theorem numericTolerances_nonneg :
    ∀ p ∈ c.toCollectorSettings.tripUpdateNumericTolerances, 0 ≤ p.2 := by
  have h1 := CollectorSettings.nonneg_of_postInit c.valid
    "prediction_time_change_threshold_seconds" (q := c.predictionTimeChangeThresholdSeconds)
    (by simp [CollectorSettings.nonnegative])
  have h2 := CollectorSettings.nonneg_of_postInit c.valid
    "bkk_stop_distance_change_threshold" (q := c.toCollectorSettings.stopDistanceTolerance)
    (by simp [CollectorSettings.nonnegative])
  simp only [CollectorSettings.tripUpdateNumericTolerances, List.forall_mem_cons]
  exact ⟨h1, h1, h2, by simp⟩

end CollectorConfig

end BkkCollector.Config
