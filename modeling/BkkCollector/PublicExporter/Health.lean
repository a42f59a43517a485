import BkkCollector.Monitoring.Status

/-! # The public health view

`health` of the exporter reads the status file of the collector, and that of the maintenance
process, and shows a closed list of codes and a state for each feed. What it does not know it drops;
the failure booleans of a feed stand in for names it does not know. -/

namespace BkkCollector.PublicExporter.Health

open BkkCollector.Python.Objects BkkCollector.Python.Documents BkkCollector.Python.Collections
open BkkCollector.Config

/-! ### Readers -/

/-- `ISSUES`. -/
def issues : List String :=
  ["absent", "http_failed", "poll_journal_failed", "protobuf_parse_failed",
    "source_timestamp_stale", "source_timestamp_frozen", "entity_timestamp_stale",
    "payload_frozen", "raw_archive_failed", "derived_spool_failed", "tripupdates_presence_failed",
    "change_tracker_failed", "request_stuck", "scheduler_overdue",
    "source_timestamp_unchanged_warning", "payload_unchanged_warning", "request_exceeds_cadence",
    "scheduler_missed_deadline"]

/-- `load_optional`, of a file of `size` bytes: one that cannot be read, is larger than the limit of
`read_object` or is no object reads as an empty object. -/
def loadOptional (size : ℕ) (value : Option Doc) : Doc :=
  if 8 * 1024 * 1024 < size then .dict []
  else
    match value with
    | some (.dict members) => .dict members
    | _ => .dict []

/-- `iso`; `isoText` formats a time it can. -/
def iso (isoText : ℚ → Option String) : Doc → Option String
  | .int i => isoText i
  | .float (some q) => isoText q
  | _ => none

/-- `count`. -/
def count (value : Doc) : Option ℤ :=
  match value.exactInt with
  | some n => if 0 ≤ n ∧ n ≤ 9000000000000000 then some n else none
  | none => none

/-- `isinstance(stamp, (int, float)) and -30 <= now - stamp <= limit`. -/
def isCurrent (now limit : ℚ) (stamp : Doc) : Bool :=
  match stamp.number with
  | some q => decide (-30 ≤ now - q ∧ now - q ≤ limit)
  | none => false

/-- `set(items)`: an item that cannot be hashed raises. -/
def hashAll : List Doc → Except PyError (List Doc)
  | [] => .ok []
  | d :: ds =>
    match d with
    | .list _ | .dict _ => .error ⟨.typeError, "unhashable type"⟩
    | _ => (hashAll ds).map (d :: ·)

/-- `a + b`. -/
def concat : Doc → Doc → Except PyError Doc
  | .list a, .list b => .ok (.list (a ++ b))
  | .str a, .str b => .ok (.str (a ++ b))
  | _, _ => .error ⟨.typeError, "unsupported operand type(s) for +"⟩

/-- `len(value)`. -/
def len : Doc → Except PyError ℕ
  | .list items => .ok items.length
  | .dict members => .ok members.length
  | .str s => .ok s.length
  | _ => .error ⟨.typeError, "object has no len()"⟩

/-- `item.partition(":")[2]`. -/
def afterColon (item : String) : String :=
  String.ofList ((item.toList.dropWhile fun c => decide (c ≠ ':')).drop 1)

/-- `flag.endswith("_warning")`. -/
def endsWithWarning (code : String) : Bool := "_warning".toList.isSuffixOf code.toList

/-- A code that does not degrade a feed. -/
def isAdvisory (code : String) : Bool :=
  endsWithWarning code || code ∈ ["request_exceeds_cadence", "scheduler_missed_deadline"]

/-! ### The view -/

/-- A state as it is shown. -/
inductive State where
  | unknown
  | healthy
  | degraded
  deriving DecidableEq

/-- What is shown of a feed. -/
structure FeedView where
  state : State
  observedAt : Option String
  sourceAt : Option String
  cadenceSeconds : Option ℚ
  entities : Option ℤ
  issues : List String
  deriving DecidableEq

/-- What is shown of the maintenance process. -/
structure MaintenanceView where
  state : State
  archiveEnabled : Bool
  pendingDays : ℕ
  deriving DecidableEq

/-- What `health` returns. -/
structure HealthView where
  state : State
  observedAt : Option String
  feeds : Feed → FeedView
  maintenance : MaintenanceView

/-- The booleans of a feed, with the codes they stand for. -/
def failureFields : List (String × String) :=
  [("parse_ok", "protobuf_parse_failed"), ("raw_ok", "raw_archive_failed"),
    ("spool_ok", "derived_spool_failed"), ("presence_ok", "tripupdates_presence_failed"),
    ("change_tracking_ok", "change_tracker_failed"), ("poll_journal_ok", "poll_journal_failed")]

/-- `source.get(field) is False`. -/
def isFalse (source : Doc) (field : String) : Except PyError Bool :=
  (source.find field).map fun value => decide (value = some (.bool false))

/-- The codes of the booleans that are false. -/
def failedCodes (source : Doc) : List (String × String) → Except PyError (List String)
  | [] => .ok []
  | (field, code) :: fields => do
    let failed ← isFalse source field
    let codes ← failedCodes source fields
    pure (if failed then code :: codes else codes)

/-- The codes of the items that are about a feed. -/
def itemCodes (feed : Feed) (items : List Doc) : List String :=
  items.filterMap fun item =>
    match item with
    | .str s => if (feed.name ++ ":").toList.isPrefixOf s.toList then some (afterColon s) else none
    | _ => none

/-- A cadence that is shown. -/
def cadence : Doc → Option ℚ
  | .int i => if 5 ≤ i ∧ i ≤ 3600 then some i else none
  | .float (some q) => if 5 ≤ q ∧ q ≤ 3600 then some q else none
  | _ => none

/-- The loop body of `health`. -/
def feedView (isoText : ℚ → Option String) (status : Doc) (current : Bool) (feed : Feed) :
    Except PyError FeedView := do
  let source ← (← status.get "feeds" (.dict [])).get feed.name (.dict [])
  let flags ← hashAll (← (← source.get "freshness_flags" (.list [])).items)
  let failed ← failedCodes source failureFields
  let reasons ← status.get "reasons" (.list [])
  let items ← (← concat reasons (← status.get "warnings" (.list []))).items
  let all := flags.filterMap Doc.asStr ++ failed ++ itemCodes feed items
  let codes := sortedSet (all.filter fun code => code ∈ issues)
  let interval ← (← source.get "scheduler" (.dict [])).get "interval_seconds" .null
  pure
    { state :=
        if !current || !source.truthy then .unknown
        else if codes.any fun code => !isAdvisory code then .degraded
        else .healthy
      observedAt := iso isoText (← source.get "last_success_timestamp" .null)
      sourceAt := iso isoText (← source.get "header_timestamp" .null)
      cadenceSeconds := cadence interval
      entities := count (← source.get "entity_count" .null)
      issues := codes }

/-- The `maintenance` member of `health`. -/
def maintenanceView (maintenance : Doc) (now : ℚ) : Except PyError MaintenanceView := do
  let current := isCurrent now 300 (← maintenance.get "updated_timestamp" .null)
  let healthy ← maintenance.get "healthy" .null
  let enabled ← maintenance.get "backup_enabled" .null
  let pending ← len (← maintenance.get "pending_backup_dates" (.list []))
  pure
    { state := if !current then .unknown else if healthy.isTrue then .healthy else .degraded
      archiveEnabled := enabled.isTrue
      pendingDays := pending }

/-- `health`, of the two documents as they are loaded. -/
def health (isoText : ℚ → Option String) (status maintenance : Doc) (now : ℚ) :
    Except PyError HealthView := do
  let stamp ← status.get "updated_timestamp" .null
  let current := isCurrent now 180 stamp
  let healthy ← status.get "healthy" .null
  let vehicles ← feedView isoText status current .vehiclepositions
  let trips ← feedView isoText status current .tripupdates
  let alerts ← feedView isoText status current .alerts
  let maintenance ← maintenanceView maintenance now
  pure
    { state := if !current then .unknown else if healthy.isTrue then .healthy else .degraded
      observedAt := iso isoText stamp
      feeds := fun feed =>
        match feed with
        | .vehiclepositions => vehicles
        | .tripupdates => trips
        | .alerts => alerts
      maintenance }

end BkkCollector.PublicExporter.Health
