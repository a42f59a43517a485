import Mathlib.Algebra.GroupWithZero.Nat
import Mathlib.Data.String.Basic
import Mathlib.Data.List.AList
import Mathlib.Data.List.Sort
import BkkCollector.Config
import BkkCollector.Storage.AtomicIo

/-! # The Parquet spool

`DurableParquetSpool` on the partition of a feed and a date: the spool directory with the segments
that poll batches are staged in and with the commit markers, and the directory of Parquet files.
`stage` installs a segment; `flush` first finishes or discards interrupted commits, then commits the
pending segments in batches. A commit writes a marker, the Parquet file, removes the segments, and
removes the marker.

Programs on one partition are written over `Partition`; those that go through all partitions run
them there with `onPartition`. -/

namespace BkkCollector.Storage.ParquetStore

open BkkCollector.Logic.Program BkkCollector.Python.Objects BkkCollector.Config
open BkkCollector.Storage.AtomicIo

/-! ### Columns -/

/-- `COMMON_COLUMNS`. -/
def commonColumns : List String :=
  ["schema_version", "poll_id", "request_started_at", "response_received_at", "fetched_at",
    "feed_header_timestamp", "feed_header_version", "feed_incrementality",
    "feed_incrementality_name", "entity_id", "entity_is_deleted"]

/-- `TRIP_COLUMNS`. -/
def tripColumns : List String :=
  ["trip_id", "route_id", "direction_id", "start_time", "start_date", "schedule_relationship",
    "schedule_relationship_name", "modified_trip_json"]

/-- `VEHICLE_COLUMNS`. -/
def vehicleColumns : List String :=
  ["vehicle_id", "vehicle_label", "vehicle_license_plate", "vehicle_wheelchair_accessible",
    "vehicle_wheelchair_accessible_name", "bkk_vehicle_model", "bkk_deviated", "bkk_vehicle_type",
    "bkk_door_open", "bkk_stop_distance"]

/-- `PARQUET_COLUMNS`. -/
def parquetColumns : Feed → List String
  | .vehiclepositions => commonColumns ++ vehicleColumns ++
    ["vehicle_timestamp", "latitude", "longitude", "bearing", "odometer", "speed",
      "current_stop_sequence", "stop_id", "current_status", "current_status_name",
      "congestion_level", "congestion_level_name", "occupancy_status", "occupancy_status_name",
      "occupancy_percentage", "multi_carriage_details_json"] ++ tripColumns
  | .tripupdates => commonColumns ++
    ["trip_update_timestamp", "trip_delay", "trip_properties_json"] ++ vehicleColumns ++
    tripColumns ++
    ["stop_time_update_index", "stop_visit_fallback_index", "stop_sequence", "stop_id",
      "stop_schedule_relationship", "stop_schedule_relationship_name",
      "departure_occupancy_status", "departure_occupancy_status_name",
      "stop_time_properties_json", "arrival_delay", "arrival_time", "arrival_uncertainty",
      "arrival_scheduled_time", "departure_delay", "departure_time", "departure_uncertainty",
      "departure_scheduled_time", "bkk_scheduled_arrival_delay", "bkk_scheduled_arrival_time",
      "bkk_scheduled_arrival_uncertainty", "bkk_scheduled_arrival_scheduled_time",
      "bkk_scheduled_departure_delay", "bkk_scheduled_departure_time",
      "bkk_scheduled_departure_uncertainty", "bkk_scheduled_departure_scheduled_time"]
  | .alerts => commonColumns ++
    ["cause", "cause_name", "effect", "effect_name", "severity_level", "severity_level_name",
      "header_text", "description_text", "url", "header_text_json", "description_text_json",
      "url_json", "tts_header_text_json", "tts_description_text_json", "image_json",
      "image_alternative_text_json", "cause_detail_json", "effect_detail_json",
      "active_period_start", "active_period_end", "active_periods_json",
      "communication_periods_json", "impact_periods_json", "informed_entities_json",
      "bkk_start_text_json", "bkk_end_text_json", "bkk_modified_time", "bkk_route_details_json",
      "affected_agency_id", "affected_route_id", "affected_route_type", "affected_stop_id",
      "affected_direction_id", "affected_trip_id", "affected_trip_route_id",
      "affected_trip_direction_id", "affected_trip_start_time", "affected_trip_start_date",
      "affected_trip_schedule_relationship", "affected_trip_schedule_relationship_name"]

/-! ### Files -/

/-- A Parquet file: its columns, and its rows over them. -/
structure ParquetFile where
  schema : List String
  rows : List Row
  deriving DecidableEq

/-- A row over the columns of a schema: what it does not have is null. -/
def project (schema : List String) (row : Row) : Row := schema.map fun c => (c, row.get c)

/-- `rows_to_table`, in the schema of the feed. -/
def rowsToTable (feed : Feed) (rows : List Row) : ParquetFile where
  schema := parquetColumns feed
  rows := rows.map (project (parquetColumns feed))

/-- The name of a Parquet file: of a committed batch, of a compacted partition, of the marker of an
empty one, or another. -/
inductive PartName where
  | batch (label digest : String)
  | compacted (digest : String)
  | empty
  | other (name : String)
  deriving DecidableEq

/-- The name as a text. -/
def PartName.text : PartName → String
  | .batch label digest => "part-" ++ label ++ "-" ++ digest ++ ".parquet"
  | .compacted digest => "part-compacted-" ++ digest ++ ".parquet"
  | .empty => "part-empty.parquet"
  | .other name => name ++ ".parquet"

/-- `segments[0].stem[6:22]`. -/
def batchLabel (segment : String) : String := String.ofList ((segment.toList.drop 6).take 16)

/-- A commit marker. -/
structure CommitMarker where
  version : ℕ
  sources : List String
  output : PartName
  expectedRows : ℕ
  deriving DecidableEq

/-- The marker of a compaction. -/
structure Transaction where
  version : ℕ
  sources : List PartName
  output : PartName
  expectedRows : ℕ
  deriving DecidableEq

/-- A staged segment: its name, and the rows in it. -/
structure Segment where
  name : String
  rows : List Row
  deriving DecidableEq

/-- The files of a feed and a date. `spoolTemporaries` counts the temporary files in the spool
directory. `staged` and `returned` are history: the segments that were renamed into place, and those
whose `stage` call returned. -/
structure Partition where
  segments : AList fun _ : String => List Row := ∅
  commits : AList fun _ : String => CommitMarker := ∅
  spoolTemporaries : ℕ := 0
  partsDirectory : Bool := false
  parts : AList fun _ : PartName => ParquetFile := ∅
  transaction : Option Transaction := none
  staged : List Segment := []
  returned : List Segment := []

/-! ### Operations -/

/-- The files and directories of a partition. -/
inductive File where
  | segment (name : String)
  | commit (digest : String)
  | spoolDirectory
  | part (name : PartName)
  | partsDirectory
  | transaction
  deriving DecidableEq

/-- The file operations of a partition. `encode` stands for what happens in memory before a write
and can raise. -/
inductive Op where
  | encode (file : File)
  | stat (file : File)
  | list (directory : File)
  | read (file : File)
  | write (step : WriteOp) (file : File)
  | unlink (file : File)
  deriving DecidableEq

/-- A program on a partition. -/
abbrev PartitionProg (α : Type) := FsProg Partition Op α

/-- `raise FileNotFoundError`. -/
def missing {α : Type} : Except PyError α := .error ⟨.fileNotFoundError, ""⟩

/-- `DurableParquetSpool._read_segment`. -/
def readSegment (name : String) : PartitionProg (List Row) :=
  fsRead (.read (.segment name)) fun p =>
    match p.segments.lookup name with
    | some rows => .ok rows
    | none => missing

/-- Reading segments one after the other. -/
def readSegments : List String → PartitionProg (List Row)
  | [] => pure []
  | name :: names => do
    let rows ← readSegment name
    let rest ← readSegments names
    pure (rows ++ rest)

/-- `parquet_row_count`. -/
def parquetRowCount (part : PartName) : PartitionProg ℕ :=
  fsRead (.read (.part part)) fun p =>
    match p.parts.lookup part with
    | some file => .ok file.rows.length
    | none => missing

/-- `output.exists() and parquet_row_count(output) == expected_rows`. -/
def validOutput (output : PartName) (expectedRows : ℕ) : PartitionProg Bool := do
  let present ← fsRead (.stat (.part output)) fun p => .ok (decide (output ∈ p.parts))
  if present then do
    let rows ← parquetRowCount output
    pure (decide (rows = expectedRows))
  else pure false

/-- `write_parquet_atomic`, with the rows that `rows` yields while the file is written. The
temporary file has no name a listing looks at. -/
def writeParquetAtomic (feed : Feed) (rows : PartitionProg (List Row)) (path : PartName) :
    PartitionProg Unit := do
  fsOp (.write .mkdir (.part path)) fun p => { p with partsDirectory := true }
  Prog.onError
    (do
      fsOp (.write .openTemporary (.part path)) id
      let rows ← rows
      fsOp (.write .write (.part path)) id
      fsOp (.write .replace (.part path)) fun p =>
        { p with parts := p.parts.insert path (rowsToTable feed rows) })
    (fsOp (.write .unlinkTemporary (.part path)) id)
  fsOp (.write .unlinkTemporary (.part path)) id

/-- `segment.unlink()`. -/
def unlinkSegment (name : String) : PartitionProg Unit :=
  unlink (.unlink (.segment name)) (fun p => decide (name ∈ p.segments)) fun p =>
    { p with segments := p.segments.erase name }

/-- Removing segments one after the other. -/
def unlinkSegments (remove : String → PartitionProg Unit) : List String → PartitionProg Unit
  | [] => pure ()
  | name :: names => do
    remove name
    unlinkSegments remove names

/-- `marker.unlink()`. -/
def unlinkCommit (digest : String) : PartitionProg Unit :=
  unlink (.unlink (.commit digest)) (fun p => decide (digest ∈ p.commits)) fun p =>
    { p with commits := p.commits.erase digest }

/-! ### Staging -/

/-- A temporary file in the spool directory. -/
def addTemporary (p : Partition) : Partition :=
  { p with spoolTemporaries := p.spoolTemporaries + 1 }

/-- A temporary file less. -/
def dropTemporary (p : Partition) : Partition :=
  { p with spoolTemporaries := p.spoolTemporaries - 1 }

/-- `stage`: the new segment, unless there are no rows. -/
def stage (name : String) (rows : List Row) : PartitionProg (Option String) :=
  if rows = [] then pure none
  else do
    fsOp (.encode (.segment name)) id
    atomicWriteBytes (.write · (.segment name)) addTemporary dropTemporary fun p =>
      { p with segments := p.segments.insert name rows, staged := p.staged ++ [⟨name, rows⟩] }
    pure (some name)

/-! ### Recovery -/

/-- `all(source.exists() for source in sources)`. -/
def allPresent : List String → PartitionProg Bool
  | [] => pure true
  | name :: names => do
    let present ← fsRead (.stat (.segment name)) fun p => .ok (decide (name ∈ p.segments))
    if present then allPresent names else pure false

/-- The `try` block of `_recover_commits`, for one marker: a marker that cannot be read is an
invalid one. -/
def recoverCommit (digest : String) : PartitionProg Unit := do
  let transaction ← readJson (.read (.commit digest)) none fun p => p.commits.lookup digest
  match transaction with
  | none => throw ⟨.valueError, "invalid spool commit marker"⟩
  | some marker =>
    if marker.version ≠ 1 ∨ marker.sources = [] then
      throw ⟨.valueError, "invalid spool commit marker"⟩
    else if ← validOutput marker.output marker.expectedRows then do
      unlinkSegments (fun name => ignoreMissing (unlinkSegment name)) marker.sources
      unlinkCommit digest
    else if ← allPresent marker.sources then
      unlinkCommit digest
    else
      throw ⟨.osError, "spool commit has missing sources and no validated Parquet output"⟩

/-! ### Committing -/

/-- `MAX_SEGMENTS_PER_COMMIT`. -/
def maxSegmentsPerCommit : ℕ := 20

/-- The marker of a batch; `digest` is the truncated digest of its names. -/
def commitMarker (digest : List String → String) (segments : List String) (expectedRows : ℕ) :
    CommitMarker where
  version := 1
  sources := segments
  output := .batch (batchLabel (segments.headD "")) (digest segments)
  expectedRows := expectedRows

/-- `_commit_segments`: the file written and the number of its rows. -/
def commitSegments (digest : List String → String) (feed : Feed) (segments : List String) :
    PartitionProg (PartName × ℕ) := do
  let expectedRows := (← readSegments segments).length
  let marker := commitMarker digest segments expectedRows
  atomicWriteBytes (.write · (.commit (digest segments))) addTemporary dropTemporary fun p =>
    { p with commits := p.commits.insert (digest segments) marker }
  unless ← validOutput marker.output expectedRows do
    writeParquetAtomic feed (readSegments segments) marker.output
  if (← parquetRowCount marker.output) ≠ expectedRows then
    throw ⟨.osError, "row-count validation failed for " ++ marker.output.text⟩
  unlinkSegments unlinkSegment segments
  unlinkCommit (digest segments)
  pure (marker.output, expectedRows)

/-! ### All partitions -/

/-- A feed and a date. -/
abbrev Key := Feed × String

/-- `{feed_name}/{date_str}`. -/
def keyText (key : Key) : String := key.1.name ++ "/" ++ key.2

/-- The data directory, as far as the spool goes. -/
abbrev Disk := AList fun _ : Key => Partition

/-- The partition of a key. -/
def partitionAt (key : Key) (disk : Disk) : Partition := (disk.lookup key).getD {}

/-- A change of the partition of a key. -/
def modifyAt (key : Key) (f : Partition → Partition) (disk : Disk) : Disk :=
  disk.insert key (f (partitionAt key disk))

/-- The operations on the data directory: on a partition, or the listing of the partitions. -/
inductive DiskOp where
  | partition (key : Key) (op : Op)
  | partitions
  deriving DecidableEq

/-- A program on the data directory. -/
abbrev DiskProg (α : Type) := FsProg Disk DiskOp α

/-- A program on the partition of a key. -/
def onPartition {α : Type} (key : Key) (p : PartitionProg α) : DiskProg α :=
  p.zoom (partitionAt key) (modifyAt key) (.partition key)

/-- The partitions, sorted by feed and date. -/
def listPartitions : DiskProg (List Key) :=
  fsRead .partitions fun disk =>
    .ok (disk.keys.insertionSort fun a b => [a.1.name, a.2] ≤ [b.1.name, b.2])

/-- A sorted listing of one directory of each partition. -/
def listEach (list : Key → PartitionProg (List String)) :
    List Key → DiskProg (List (Key × List String))
  | [] => pure []
  | key :: keys => do
    let names ← onPartition key (list key)
    let rest ← listEach list keys
    pure ((key, names) :: rest)

/-- The commit markers of a partition. -/
def listCommits : PartitionProg (List String) :=
  fsRead (.list .spoolDirectory) fun p => .ok (p.commits.keys.insertionSort (· ≤ ·))

/-- The segments of a partition. -/
def listSegments : PartitionProg (List String) :=
  fsRead (.list .spoolDirectory) fun p => .ok (p.segments.keys.insertionSort (· ≤ ·))

/-- `FlushResult`. -/
structure FlushResult where
  filesWritten : List (Key × PartName) := []
  rowsWritten : ℕ := 0
  errors : List String := []

/-- `_recover_commits`, for the markers of one partition. -/
def recoverMarkers (key : Key) : List String → FlushResult × List Key →
    DiskProg (FlushResult × List Key)
  | [], acc => pure acc
  | digest :: digests, (result, blocked) => do
    match ← (onPartition key (recoverCommit digest)).attempt with
    | .ok () => recoverMarkers key digests (result, blocked)
    | .error e =>
      recoverMarkers key digests
        ({ result with errors := result.errors ++ [keyText key ++ " recovery: " ++ e.text] },
          blocked.insert key)

/-- `_recover_commits`: the result with its errors, and the blocked partitions. -/
def recoverCommits : List (Key × List String) → FlushResult × List Key →
    DiskProg (FlushResult × List Key)
  | [], acc => pure acc
  | (key, digests) :: groups, acc => do
    let acc ← recoverMarkers key digests acc
    recoverCommits groups acc

/-- The batches of at most twenty segments: `segments[start : start + MAX_SEGMENTS_PER_COMMIT]`.
`fuel` is a bound for the number of segments. -/
def batches : (fuel : ℕ) → List String → List (List String)
  | 0, _ => []
  | _, [] => []
  | fuel + 1, segments =>
    segments.take maxSegmentsPerCommit :: batches fuel (segments.drop maxSegmentsPerCommit)

/-- The loop of `flush` over the batches of a partition. A failing batch ends it; the result is
marked if the flush is to stop altogether. -/
def flushBatches (digest : List String → String) (shouldStop : Key → List String → Bool)
    (key : Key) : List (List String) → FlushResult → DiskProg (FlushResult × Bool)
  | [], result => pure (result, false)
  | batch :: rest, result => do
    if shouldStop key batch then pure (result, true)
    else
      match ← (onPartition key (commitSegments digest key.1 batch)).attempt with
      | .ok (file, rows) =>
        flushBatches digest shouldStop key rest
          { result with
            filesWritten := result.filesWritten ++ [(key, file)]
            rowsWritten := result.rowsWritten + rows }
      | .error e =>
        pure ({ result with errors := result.errors ++ [keyText key ++ ": " ++ e.text] }, false)

/-- The loop of `flush` over the partitions. -/
def flushGroups (digest : List String → String) (shouldStop : Key → List String → Bool)
    (blocked : List Key) : List (Key × List String) → FlushResult → DiskProg FlushResult
  | [], result => pure result
  | (key, segments) :: groups, result => do
    if key ∈ blocked then flushGroups digest shouldStop blocked groups result
    else do
      let (result, stopped) ← flushBatches digest shouldStop key
        (batches segments.length segments) result
      if stopped then pure result
      else flushGroups digest shouldStop blocked groups result

/-- `flush`: `due` says that the flush interval is over. -/
def flush (digest : List String → String) (force due : Bool)
    (shouldStop : Key → List String → Bool) : DiskProg FlushResult := do
  let markers ← listEach (fun _ => listCommits) (← listPartitions)
  let (result, blocked) ← recoverCommits markers ({}, [])
  if !force && !due then pure result
  else do
    let groups ← listEach (fun _ => listSegments) (← listPartitions)
    flushGroups digest shouldStop blocked groups result

end BkkCollector.Storage.ParquetStore
