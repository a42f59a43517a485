import BkkCollector.Collector.ProcessResult
import BkkCollector.Logic.ZeroPadding
import BkkCollector.Storage.ParquetStore
import BkkCollector.Storage.RawLog

/-! # Rebuilding Parquet

`rebuild_one` derives the Parquet partition of a feed and a date once more from the raw log. It
parses and filters the records one by one, writes the rows in chunks to a staging directory, moves
the partition that is there aside, and renames the staging directory. -/

namespace BkkCollector.Cli.RebuildParquet

open BkkCollector.Logic.Program BkkCollector.Logic.ZeroPadding BkkCollector.Python.Objects
open BkkCollector.Config BkkCollector.Realtime.Dedup BkkCollector.Realtime.TripUpdatePolicy
open BkkCollector.Storage.AtomicIo BkkCollector.Storage.RawLog
open BkkCollector.Collector.ProcessResult (Libraries)
open BkkCollector.Storage.ParquetStore (ParquetFile rowsToTable)

/-! ### Trackers -/

/-- The settings of `make_tracker`, from the environment. -/
structure TrackerSettings where
  heartbeatSeconds : ℤ := 1800
  delayChangeThresholdSeconds : ℤ := 15
  predictionTimeChangeThresholdSeconds : ℤ := 2
  bkkStopDistanceChangeThreshold : ℤ := 15
  changeTrackerNullGuardRows : ℤ := 1000

/-- The arguments of the tracker of a feed. -/
def trackerArguments (settings : TrackerSettings) : Feed → Option TrackerArguments
  | .vehiclepositions => none
  | .tripupdates => some
    { keyFields := tripUpdateKeyFields
      valueFields := tripUpdateExactMutableFields
      numericToleranceFields := tripUpdateTolerantNumericFields
      tolerance := settings.delayChangeThresholdSeconds
      numericTolerances :=
        [("arrival_time", settings.predictionTimeChangeThresholdSeconds),
          ("departure_time", settings.predictionTimeChangeThresholdSeconds),
          ("bkk_stop_distance", settings.bkkStopDistanceChangeThreshold)]
      requiredSignalFields := tripUpdateDelayFields ++ tripUpdatePredictionTimeFields
      nullGuardMinRows := settings.changeTrackerNullGuardRows
      heartbeatSeconds := settings.heartbeatSeconds }
  | .alerts => some
    { keyFields := ["entity_id", "affected_agency_id", "affected_route_id", "affected_route_type",
        "affected_stop_id", "affected_direction_id", "affected_trip_id",
        "affected_trip_start_date", "affected_trip_start_time"]
      valueFields := ["cause", "effect", "severity_level", "header_text_json",
        "description_text_json", "url_json", "active_periods_json", "communication_periods_json",
        "impact_periods_json", "informed_entities_json", "bkk_start_text_json",
        "bkk_end_text_json", "bkk_modified_time", "bkk_route_details_json"]
      heartbeatSeconds := settings.heartbeatSeconds }

/-- `make_tracker`. -/
def makeTracker (settings : TrackerSettings) (feed : Feed) :
    Except PyError (Option ChangeTracker) :=
  match trackerArguments settings feed with
  | none => .ok none
  | some args => (ChangeTracker.init args).map some

/-! ### Inputs -/

/-- The arguments of `rebuild_one`. -/
structure Request where
  feed : Feed
  date : String
  chunkRows : ℕ := 100000
  chunkRows_pos : 0 < chunkRows := by decide
  allowParseErrors : Bool := false
  allowCurrentDate : Bool := false

/-- What it finds: the settings, the libraries, the clock, and the raw log. -/
structure Surroundings where
  settings : TrackerSettings := {}
  gz : Gzip
  lib : Libraries
  today : String
  rebuiltAt : String
  isoformat : Timestamp → Except PyError String
  seconds : Timestamp → ℚ
  sha256File : Bytes → String
  rollbackPath : String
  rawLog : Option Bytes

/-- `rebuild_manifest.json`. -/
structure RebuildManifest where
  version : ℕ := 1
  feed : Feed
  date : String
  rawPath : String
  rawSha256 : String
  rawRecords : ℕ
  rawLogClean : Bool
  parseFailures : ℕ
  rows : ℕ
  chunkRows : ℕ
  rebuiltAt : String
  limitation : String := "resolution is limited to timestamps present in the raw log"

/-! ### Files -/

/-- The directory of a partition: its Parquet files, and the manifest of a rebuild. -/
structure Directory where
  parts : AList fun _ : String => ParquetFile := ∅
  manifest : Option RebuildManifest := none

/-- The partition, the rollback path of this run, and its staging directory. -/
structure Workspace where
  destination : Option Directory
  previous : Option Directory := none
  staging : Option Directory := none

/-- The file operations of `rebuild_one`. -/
inductive RebuildOp where
  | statRaw
  | scanRaw
  | mkStaging
  | openRaw
  | readRecord
  | chunk (index : ℕ) (step : WriteOp)
  | hashRaw
  | manifest (step : WriteOp)
  | mkDestination
  | statDestination
  | mkPrevious
  | moveAside
  | install
  | statPrevious
  | statInstalled
  | restore
  | rmtree
  deriving DecidableEq

/-- A program on a workspace. -/
abbrev RebuildProg (α : Type) := FsProg Workspace RebuildOp α

/-- `f"part-rebuilt-{index:06d}.parquet"`. -/
def partName (index : ℕ) : String :=
  "part-rebuilt-" ++ String.ofList (padded 6 index) ++ ".parquet"

/-- One more file in a directory. -/
def Directory.addPart (d : Directory) (feed : Feed) (index : ℕ) (rows : List Row) : Directory :=
  { d with parts := d.parts.insert (partName index) (rowsToTable feed rows) }

/-- `_flush_chunk`. -/
def flushChunk (feed : Feed) (rows : List Row) (index : ℕ) : RebuildProg Unit :=
  atomicWriteBytes (.chunk index ·) id id fun w =>
    { w with staging := w.staging.map fun d => d.addPart feed index rows }

/-- The variables of the loop. -/
structure Progress where
  tracker : Option ChangeTracker
  buffer : List Row := []
  records : ℕ := 0
  failures : ℕ := 0
  writtenRows : ℕ := 0
  part : ℕ := 0

/-- `while len(buffer) >= chunk_rows`. `fuel` is at least the length of the buffer. -/
def drain (q : Request) : (fuel : ℕ) → Progress → RebuildProg Progress
  | 0, p => pure p
  | fuel + 1, p =>
    if q.chunkRows ≤ p.buffer.length then do
      flushChunk q.feed (p.buffer.take q.chunkRows) p.part
      drain q fuel
        { p with
          buffer := p.buffer.drop q.chunkRows
          writtenRows := p.writtenRows + q.chunkRows
          part := p.part + 1 }
    else pure p

/-! ### Records -/

section Rebuild

variable (q : Request) (i : Surroundings)

/-- The rows of a record, filtered, and the tracker behind it. -/
def recordRows (index : ℕ) (received : String) (tracker : Option ChangeTracker)
    (record : Timestamp × Bytes) : Option ChangeTracker × Except PyError (List Row) :=
  let parsed := do
    let message ← i.lib.parseFeed record.2
    i.lib.parsers q.feed message
      { pollId := "rebuild-" ++ q.feed.name ++ "-" ++ q.date ++ "-" ++
          String.ofList (padded 8 index)
        requestStartedAt := received
        responseReceivedAt := received
        feedHeaderTimestamp := message.headerTimestamp
        feedIncrementality := some message.incrementality }
  match parsed, tracker with
  | .error e, _ => (tracker, .error e)
  | .ok rows, none => (none, .ok rows)
  | .ok rows, some t =>
    let (t, out) := t.filter rows q.date (i.seconds record.1) true
    (some t, out)

/-- `os.replace(staging, destination)`. -/
def install : RebuildProg Unit :=
  fsOp .install fun w => { w with destination := w.staging, staging := none }

end Rebuild

end BkkCollector.Cli.RebuildParquet
