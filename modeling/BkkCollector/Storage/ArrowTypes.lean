import BkkCollector.Storage.ParquetStore

/-! # Arrow types

The type of each column, and what it can hold. `rows_to_table` raises where a column holds a value
its type cannot. -/

namespace BkkCollector.Storage.ArrowTypes

open BkkCollector.Python.Objects BkkCollector.Config BkkCollector.Storage.ParquetStore

/-- The Arrow types of `parquet_schema`. -/
inductive ArrowType where
  | int16
  | bool
  | float64
  | int64
  | string
  deriving DecidableEq

/-- `BOOL_COLUMNS`. -/
def boolColumns : List String := ["entity_is_deleted", "bkk_deviated", "bkk_door_open"]

/-- `FLOAT_COLUMNS`. -/
def floatColumns : List String := ["latitude", "longitude", "bearing", "odometer", "speed"]

/-- `INT_COLUMNS`. -/
def intColumns : List String :=
  ["feed_header_timestamp", "feed_incrementality", "vehicle_timestamp",
    "vehicle_wheelchair_accessible", "bkk_vehicle_type", "bkk_stop_distance", "direction_id",
    "schedule_relationship", "current_stop_sequence", "current_status", "congestion_level",
    "occupancy_status", "occupancy_percentage", "trip_update_timestamp", "trip_delay",
    "stop_time_update_index", "stop_visit_fallback_index", "stop_sequence",
    "stop_schedule_relationship", "departure_occupancy_status", "arrival_delay", "arrival_time",
    "arrival_uncertainty", "arrival_scheduled_time", "departure_delay", "departure_time",
    "departure_uncertainty", "departure_scheduled_time", "bkk_scheduled_arrival_delay",
    "bkk_scheduled_arrival_time", "bkk_scheduled_arrival_uncertainty",
    "bkk_scheduled_arrival_scheduled_time", "bkk_scheduled_departure_delay",
    "bkk_scheduled_departure_time", "bkk_scheduled_departure_uncertainty",
    "bkk_scheduled_departure_scheduled_time", "cause", "effect", "severity_level",
    "active_period_start", "active_period_end", "bkk_modified_time", "affected_route_type",
    "affected_direction_id", "affected_trip_direction_id", "affected_trip_schedule_relationship"]

/-- The type `parquet_schema` gives a column. -/
def arrowType (column : String) : ArrowType :=
  if column = "schema_version" then .int16
  else if column ∈ boolColumns then .bool
  else if column ∈ floatColumns then .float64
  else if column ∈ intColumns then .int64
  else .string

/-- The integers an Arrow type holds. -/
def ArrowType.fits : ArrowType → ℤ → Bool
  | .int16, i => decide (-2 ^ 15 ≤ i ∧ i < 2 ^ 15)
  | .int64, i => decide (-2 ^ 63 ≤ i ∧ i < 2 ^ 63)
  | _, _ => false

/-- The values `pyarrow.array` converts to a type; every column is nullable. -/
def ArrowType.accepts (type : ArrowType) : Value → Bool
  | .null => true
  | .int i => type.fits i
  | .bool _ => type = .bool
  | .float _ => type = .float64
  | .str _ => type = .string
  | .bytes _ => false

/-- Does a row go into the columns of a feed. -/
def convertible (feed : Feed) (row : Row) : Bool :=
  (parquetColumns feed).all fun c => (arrowType c).accepts (row.get c)

/-- What becomes of the Parquet file of a batch: writing it fails where a segment of the batch has a
row that does not go into the columns. No other file operation fails. -/
def conversions : DiskOp → Disk → AtomicIo.Choice
  | .partition key (.write .write (.part output)), disk =>
    let p := partitionAt key disk
    if p.commits.entries.any fun m => m.2.output = output &&
        m.2.sources.any fun name =>
          ((p.segments.lookup name).getD []).any fun row => !convertible key.1 row then
      .fault 0
    else .ok
  | _, _ => .ok

end BkkCollector.Storage.ArrowTypes
