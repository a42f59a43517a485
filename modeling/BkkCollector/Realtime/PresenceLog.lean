import Mathlib.Data.List.Sort
import BkkCollector.Python.Collections
import BkkCollector.Python.Objects
import BkkCollector.Realtime.TripUpdatePolicy

/-! # The presence log

Which trips and stop visits a TripUpdates response contained, as a log of records per UTC date: a
baseline lists everything that is present, a delta what changed since the record before it. A
reader replays the records; the writer keeps the membership of its last durable record and starts a
new baseline whenever it lost track.

Identities and source timestamps are protobuf strings and integers, on which Python's `==` is
equality of values. -/

namespace BkkCollector.Realtime.PresenceLog

open BkkCollector.Python.Objects BkkCollector.Python.Collections
open BkkCollector.Realtime.TripUpdatePolicy

/-! ### Records -/

/-- `PRESENCE_VERSION`. -/
def presenceVersion : ℕ := 1

/-- `SOURCE_TIMESTAMPS_VERSION`. -/
def sourceTimestampsVersion : ℕ := 1

/-- The identity of a trip. -/
abbrev Trip := List Value

/-- The identity of a stop visit. -/
abbrev Stop := List Value

/-- Trips with their stop visits. -/
abbrev Members := SetDict Trip Stop

/-- Trips with their source timestamps. -/
abbrev Timestamps := AList fun _ : Trip => Value

/-- What changed for one trip. -/
structure Change where
  trip : Trip
  tripEntered : Bool
  tripWithdrawn : Bool
  enteredStops : List Stop
  withdrawnStops : List Stop
  deriving DecidableEq

/-- The kind of a record. -/
inductive Kind where
  | baseline
  | delta
  | unknown (text : String)
  deriving DecidableEq

/-- What the caller adds to a record. -/
structure Context where
  pollId : String
  requestStartedAt : String
  responseReceivedAt : String
  feedHeaderTimestamp : Option ℕ
  feedIncrementality : Option ℤ
  deriving DecidableEq

/-- A record of the log. -/
structure Record where
  context : Context
  version : ℕ
  runId : String
  streamId : String
  sequence : ℕ
  kind : Kind
  baselineReason : Option String
  tripIdentityFields : List String
  stopIdentityFields : List String
  tripCount : ℕ
  stopCount : ℕ
  changes : List Change
  sourceTimestampsVersion : Option ℕ
  sourceTimestampUpdates : List (Trip × Value)
  deriving DecidableEq

/-! ### Replay -/

/-- `raise ValueError(message)`. -/
def valueError {α : Type} (message : String) : Except PyError α := .error ⟨.valueError, message⟩

/-- The body of `apply_presence_record`'s loop. -/
def applyChange (members : Members) (change : Change) : Except PyError Members := do
  let entered := PySet.ofList change.enteredStops
  let withdrawn := PySet.ofList change.withdrawnStops
  if (entered.union withdrawn).toList.any fun stop =>
      stop.length ≠ stopIdentityFields.length then
    valueError "invalid stop presence identity"
  else
    let old := members.lookup change.trip
    if change.tripEntered ∧ old.isSome then
      valueError "trip enters twice without withdrawal"
    else
      match if change.tripEntered then some ∅ else old with
      | none => valueError "presence delta does not match preceding membership"
      | some old =>
        if !entered.isDisjoint old || !withdrawn.isSubset old then
          valueError "presence delta does not match preceding membership"
        else
          let new := (old.diff withdrawn).union entered
          if change.tripWithdrawn then
            if !new.isEmpty then
              valueError "withdrawn trip retains stop visits"
            else if change.trip ∈ members then
              pure (members.erase change.trip)
            else
              .error ⟨.keyError, ""⟩
          else
            pure (members.insert change.trip new)

/-- The loop of `apply_presence_record`; `changed` are the trips it has seen. -/
def applyChanges (changed : List Trip) (members : Members) :
    List Change → Except PyError Members
  | [] => .ok members
  | change :: changes =>
    if change.trip.length ≠ tripIdentityFields.length ∨ change.trip ∈ changed then
      valueError "invalid/duplicate trip presence identity"
    else do
      let members ← applyChange members change
      applyChanges (change.trip :: changed) members changes

/-- `apply_presence_record`. -/
def applyPresenceRecord (members : Members) (record : Record) : Except PyError Members :=
  if record.version ≠ presenceVersion ∨ record.tripIdentityFields ≠ tripIdentityFields ∨
      record.stopIdentityFields ≠ stopIdentityFields ∨
      (record.kind ≠ .baseline ∧ record.kind ≠ .delta) then
    valueError "unsupported presence record"
  else do
    let members ← applyChanges [] (if record.kind = .baseline then ∅ else members) record.changes
    if members.keys.length ≠ record.tripCount ∨ members.total ≠ record.stopCount then
      valueError "presence membership counts do not match replay"
    else
      pure members

/-- `type(timestamp) is int and timestamp >= 0`, or `None`. -/
def validTimestamp : Value → Bool
  | .null => true
  | .int i => 0 ≤ i
  | _ => false

/-- The loop of `apply_source_timestamp_record` over the updates. -/
def applyUpdates (members : Members) (seen : List Trip) (timestamps : Timestamps) :
    List (Trip × Value) → Except PyError Timestamps
  | [] => .ok timestamps
  | (trip, timestamp) :: updates =>
    if trip ∉ members ∨ trip ∈ seen ∨ validTimestamp timestamp = false then
      valueError "invalid/duplicate source timestamp update"
    else
      applyUpdates members (trip :: seen) (timestamps.insert trip timestamp) updates

/-- The timestamps of withdrawn trips are dropped. -/
def dropWithdrawn (timestamps : Timestamps) (changes : List Change) : Timestamps :=
  changes.foldl (fun t change => if change.tripWithdrawn then t.erase change.trip else t) timestamps

/-- `apply_source_timestamp_record`. -/
def applySourceTimestampRecord (timestamps : Option Timestamps) (record : Record)
    (members : Members) : Except PyError (Option Timestamps) :=
  match record.sourceTimestampsVersion with
  | none => .ok none
  | some version =>
    if version ≠ sourceTimestampsVersion then
      valueError "unsupported source timestamp evidence"
    else
      match if record.kind = .baseline then some ∅ else timestamps with
      | none => valueError "source timestamps have no preceding baseline"
      | some timestamps => do
        let timestamps ← applyUpdates members [] (dropWithdrawn timestamps record.changes)
          record.sourceTimestampUpdates
        if timestamps.keys.any (· ∉ members) || members.keys.any (· ∉ timestamps) then
          valueError "source timestamps do not cover observed membership"
        else
          pure (some timestamps)

/-- What a reader knows. -/
structure Replay where
  members : Members := ∅
  timestamps : Option Timestamps := some ∅

/-- A reader's step: the membership, then the source timestamps. -/
def Replay.apply (r : Replay) (record : Record) : Except PyError Replay := do
  let members ← applyPresenceRecord r.members record
  let timestamps ← applySourceTimestampRecord r.timestamps record members
  pure { members, timestamps }

/-- Replaying a log, in file order. -/
def replay (log : List Record) : Except PyError Replay := log.foldlM Replay.apply {}

/-! ### The writer -/

/-- `_ordered`: sorted by their JSON text. -/
def ordered (json : Json) (values : List (List Value)) : Except PyError (List (List Value)) := do
  let keyed ← values.mapM fun value => do
    let text ← json.dumps value
    pure (text, value)
  pure ((keyed.insertionSort fun a b => a.1 ≤ b.1).map (·.2))

/-- The state of a `TripUpdatePresence`. -/
structure TripUpdatePresence where
  runId : String
  date : Option String := none
  members : Option Members := none
  sourceTimestamps : Timestamps := ∅
  baselineReason : String := "process_start"
  streamId : String
  sequence : ℕ := 0

/-- What one response says: its trips with their stop visits, and their source timestamps. -/
structure Observation where
  members : Members := ∅
  timestamps : Timestamps := ∅

/-- The identity of a row's trip. -/
def tripOf (row : Row) : Trip := tripIdentityFields.map row.get

/-- The identity of a row's stop visit. -/
def stopOf (row : Row) : Stop := stopIdentityFields.map row.get

/-- One row of a response. A trip-only row makes its trip present, without a stop visit. -/
def Observation.addRow (o : Observation) (row : Row) : Observation :=
  let stops := (o.members.lookup (tripOf row)).getD ∅
  { members := o.members.insert (tripOf row)
      (if (row.get "stop_time_update_index").isNone then stops else stops.add (stopOf row))
    timestamps := o.timestamps.insert (tripOf row) (row.get "trip_update_timestamp") }

/-- The rows of a response without deletions. -/
def observation (rows : List Row) : Observation := rows.foldl Observation.addRow {}

/-- What changed for one trip between two memberships. -/
def diffTrip (json : Json) (previous current : Members) (trip : Trip) :
    Except PyError (Option Change) := do
  let oldStops := (previous.lookup trip).getD ∅
  let newStops := (current.lookup trip).getD ∅
  let entered := newStops.diff oldStops
  let withdrawn := oldStops.diff newStops
  let tripEntered := !decide (trip ∈ previous)
  let tripWithdrawn := !decide (trip ∈ current)
  if !entered.isEmpty || !withdrawn.isEmpty || tripEntered || tripWithdrawn then
    let enteredStops ← ordered json entered.toList
    let withdrawnStops ← ordered json withdrawn.toList
    pure (some { trip, tripEntered, tripWithdrawn, enteredStops, withdrawnStops })
  else
    pure none

/-- The changes of the ordered trips. -/
def diffTrips (json : Json) (previous current : Members) :
    List Trip → Except PyError (List Change)
  | [] => .ok []
  | trip :: trips => do
    let change ← diffTrip json previous current trip
    let changes ← diffTrips json previous current trips
    pure (change.toList ++ changes)

/-- Does a present trip's source timestamp go into the record. -/
def timestampUpdated (baseline : Bool) (previous : Members) (known : Timestamps)
    (current : Observation) (trip : Trip) : Bool :=
  decide (trip ∈ current.members) &&
    (baseline || !decide (trip ∈ previous) ||
      decide ((current.timestamps.lookup trip).getD .null ≠ (known.lookup trip).getD .null))

/-- The timestamp updates of the ordered trips. -/
def timestampUpdates (baseline : Bool) (previous : Members) (known : Timestamps)
    (current : Observation) (trips : List Trip) : List (Trip × Value) :=
  (trips.filter (timestampUpdated baseline previous known current)).map fun trip =>
    (trip, (current.timestamps.lookup trip).getD .null)

/-- `presence_path`, relative to the data directory. -/
def presencePath (date : String) : String :=
  "metadata/tripupdates_presence/date=" ++ date ++ "/presence.jsonlog"

/-- What `observe` returns. -/
structure Details where
  path : String
  kind : Kind
  streamId : String
  sequence : ℕ
  presentTrips : ℕ
  presentStopVisits : ℕ
  sourceTimestampsVersion : ℕ
  deriving DecidableEq

/-- The details of a record. -/
def Record.details (record : Record) (date : String) : Details where
  path := presencePath date
  kind := record.kind
  streamId := record.streamId
  sequence := record.sequence
  presentTrips := record.tripCount
  presentStopVisits := record.stopCount
  sourceTimestampsVersion := PresenceLog.sourceTimestampsVersion

namespace TripUpdatePresence

variable (p : TripUpdatePresence)

/-- A new instance. -/
def start (runId streamId : String) : TripUpdatePresence := { runId, streamId }

/-- `invalidate`. -/
def invalidate (reason : String) : TripUpdatePresence :=
  { p with members := none, baselineReason := reason }

/-- The date switch of `observe`. -/
def switchDate (date : String) : TripUpdatePresence :=
  if p.date ≠ some date then
    { p with
      baselineReason := if p.date ≠ none then "utc_date_boundary" else p.baselineReason
      date := some date, members := none }
  else p

/-- The record `observe` writes for an observation. -/
def encode (json : Json) (current : Observation) (context : Context) (freshId : String) :
    Except PyError Record := do
  let baseline := p.members.isNone
  let previous := p.members.getD ∅
  let trips ← ordered json (current.members.keys ∪ previous.keys)
  let changes ← diffTrips json previous current.members trips
  pure
    { context
      version := presenceVersion
      runId := p.runId
      streamId := if baseline then freshId else p.streamId
      sequence := if baseline then 1 else p.sequence + 1
      kind := if baseline then .baseline else .delta
      baselineReason := if baseline then some p.baselineReason else none
      tripIdentityFields, stopIdentityFields
      tripCount := current.members.keys.length
      stopCount := current.members.total
      changes
      sourceTimestampsVersion := some sourceTimestampsVersion
      sourceTimestampUpdates :=
        timestampUpdates baseline previous p.sourceTimestamps current trips }

/-- `observe` up to the append: the record and the observation it encodes, or the exception. An
unencodable identity raises before anything is written, and the instance keeps its membership. -/
def prepare (json : Json) (rows : List Row) (date : String) (context : Context)
    (freshId : String) : TripUpdatePresence × Except PyError (Record × Observation) :=
  if context.feedIncrementality.getD 0 ≠ 0 then
    (p.invalidate "unsupported_incrementality",
      valueError "presence requires FULL_DATASET; raw fallback preserves unsupported feeds")
  else
    let p := p.switchDate date
    if rows.any fun row => (row.get "entity_is_deleted").truthy then
      (p.invalidate "unexpected_deletion",
        valueError "FULL_DATASET deletion cannot be interpreted as presence")
    else
      (p, (p.encode json (observation rows) context freshId).map (·, observation rows))

/-- The state once the record is durable. -/
def advance (record : Record) (current : Observation) : TripUpdatePresence :=
  { p with
    members := some current.members, sourceTimestamps := current.timestamps
    streamId := record.streamId, sequence := record.sequence }

/-- `observe`: `append` repairs the log of a date and appends a record to it. -/
def observe {m : Type → Type} [Monad m] (json : Json) (rows : List Row) (date : String)
    (context : Context) (freshId : String)
    (append : String → Record → m (Except PyError Unit)) :
    m (TripUpdatePresence × Except PyError Details) :=
  match p.prepare json rows date context freshId with
  | (p, .error e) => pure (p, .error e)
  | (p, .ok (record, current)) => do
    match ← append date record with
    | .error e => pure (p.invalidate "presence_write_gap", .error e)
    | .ok () => pure (p.advance record current, .ok (record.details date))

end TripUpdatePresence

end BkkCollector.Realtime.PresenceLog
