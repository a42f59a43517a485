import BkkCollector.Realtime.GtfsRealtime

/-! # Parsing feeds into rows

The parsers of `gtfs_rt_parse`. Scalar fields become columns; repeated and nested ones become JSON
texts, and a text that is no UTF-8 cannot become one. -/

namespace BkkCollector.Realtime.GtfsRtParse

open BkkCollector.Python.Objects BkkCollector.Python.Json BkkCollector.Config
open BkkCollector.Realtime.GtfsRealtime

/-! ### JSON columns -/

/-- A scalar as `json.dumps` takes it. No column that goes into a JSON text is a float. -/
def scalarJson : Value → Except PyError JsonValue
  | .null => .ok .null
  | .bool b => .ok (.bool b)
  | .int i => .ok (.int i)
  | .str s => .ok (.str s)
  | .float _ => .error ⟨.valueError, ""⟩
  | .bytes _ => .error ⟨.typeError, "Object of type bytes is not JSON serializable"⟩

/-- The members of a dictionary of scalars. -/
def membersJson : Row → Except PyError (List (String × JsonValue))
  | [] => .ok []
  | (k, v) :: row => do
    let v ← scalarJson v
    let row ← membersJson row
    pure ((k, v) :: row)

/-- A dictionary of scalars. -/
def rowJson (row : Row) : Except PyError JsonValue := do
  let members ← membersJson row
  pure (.dict members)

/-- A list of values. -/
def listJson {α : Type} (item : α → Except PyError JsonValue) :
    List α → Except PyError (List JsonValue)
  | [] => .ok []
  | a :: as => do
    let v ← item a
    let vs ← listJson item as
    pure (v :: vs)

/-- `_json` of a list. -/
def jsonColumn {α : Type} (item : α → Except PyError JsonValue) (items : List α) :
    Except PyError Value := do
  let values ← listJson item items
  pure (.str (dumps (.list values)))

section

variable (pb : Protobuf)

/-- `_message_json`. -/
def messageJson : Option Message → Except PyError Value
  | none => .ok .null
  | some m => do
    let v ← pb.messageToDict m
    pure (.str (dumps v))

/-- `_enum_name`. -/
def enumName (enum : String) : Option Int32 → Value
  | none => .null
  | some i => .str (pb.enumName enum i.toInt)

/-- An item of `_translations`. -/
def translationRow (t : Translation) : Row :=
  [("text", t.text.value), ("language", orNone t.language)]

/-- `_translations(value) if _has(message, field) else []`. -/
def translations : Option TranslatedString → List Row
  | none => []
  | some value => value.translation.map translationRow

/-- `_first_translation`. -/
def firstTranslation (value : Option TranslatedString) : Value :=
  match translations value with
  | [] => .null
  | row :: _ => row.get "text"

/-- `_json(_translations(value))`. -/
def translationsJson (value : Option TranslatedString) : Except PyError Value :=
  jsonColumn rowJson (translations value)

/-! ### Shared columns -/

/-- `SCHEMA_VERSION`. -/
def schemaVersion : ℤ := 2

/-- The context of a poll: its identifier and its two times. -/
structure PollContext where
  pollId : Option String
  requestStartedAt : String
  responseReceivedAt : String

/-- `_poll_context`. -/
def pollContext (feed : FeedMessage) (context : PollContext) : Row :=
  [("schema_version", .int schemaVersion),
    ("poll_id", (context.pollId.map Value.str).getD .null),
    ("request_started_at", .str (if context.requestStartedAt = "" then
      context.responseReceivedAt else context.requestStartedAt)),
    ("response_received_at", .str context.responseReceivedAt),
    ("fetched_at", .str context.responseReceivedAt),
    ("feed_header_timestamp", uint64Value feed.header.timestamp),
    ("feed_header_version", textValue feed.header.feedVersion),
    ("feed_incrementality", int32Value feed.header.incrementality),
    ("feed_incrementality_name", enumName pb "incrementality" feed.header.incrementality)]

/-- `_entity_context`. -/
def entityContext (entity : FeedEntity) : Row :=
  [("entity_id", orNone (some entity.id)), ("entity_is_deleted", boolValue entity.isDeleted)]

/-- `{field: None for field in TRIP_FIELDS}`. -/
def emptyTrip : Row :=
  [("trip_id", .null), ("route_id", .null), ("direction_id", .null), ("start_time", .null),
    ("start_date", .null), ("schedule_relationship", .null),
    ("schedule_relationship_name", .null), ("modified_trip_json", .null)]

/-- `_trip_desc` of a trip, or the empty one. -/
def tripDesc : Option TripDescriptor → Except PyError Row
  | none => .ok emptyTrip
  | some trip => do
    let modified ← messageJson pb trip.modifiedTrip
    pure [("trip_id", orNone trip.tripId),
      ("route_id", orNone trip.routeId),
      ("direction_id", uint32Value trip.directionId),
      ("start_time", orNone trip.startTime),
      ("start_date", orNone trip.startDate),
      ("schedule_relationship", int32Value trip.scheduleRelationship),
      ("schedule_relationship_name",
        enumName pb "schedule_relationship" trip.scheduleRelationship),
      ("modified_trip_json", modified)]

/-- `_realcity_vehicle`. -/
def realcityVehicle : Option RealcityVehicle → Row
  | none =>
    [("bkk_vehicle_model", .null), ("bkk_deviated", .null), ("bkk_vehicle_type", .null),
      ("bkk_door_open", .null), ("bkk_stop_distance", .null)]
  | some v =>
    [("bkk_vehicle_model", textValue v.vehicleModel),
      ("bkk_deviated", .bool (v.deviated.getD false)),
      ("bkk_vehicle_type", int32Value v.vehicleType),
      ("bkk_door_open", boolValue v.doorOpen),
      ("bkk_stop_distance", int32Value v.stopDistance)]

/-- `_vehicle_desc`. -/
def vehicleDesc (vehicle : Option VehicleDescriptor) : Row :=
  let v := vehicle.getD {}
  [("vehicle_id", orNone v.id),
    ("vehicle_label", orNone v.label),
    ("vehicle_license_plate", textValue v.licensePlate),
    ("vehicle_wheelchair_accessible", int32Value v.wheelchairAccessible),
    ("vehicle_wheelchair_accessible_name",
      enumName pb "wheelchair_accessible" v.wheelchairAccessible)] ++
    realcityVehicle v.realcity

/-- `_stop_event`. -/
def stopEvent (event : Option StopTimeEvent) (stem : String) : Row :=
  let e := event.getD {}
  [(stem ++ "_delay", int32Value e.delay),
    (stem ++ "_time", int64Value e.time),
    (stem ++ "_uncertainty", int32Value e.uncertainty),
    (stem ++ "_scheduled_time", int64Value e.scheduledTime)]

/-- `_realcity_stop_update`. -/
def realcityStopUpdate (extension : Option RealcityStopTimeUpdate) : Row :=
  let e := extension.getD {}
  stopEvent e.scheduledArrival "bkk_scheduled_arrival" ++
    stopEvent e.scheduledDeparture "bkk_scheduled_departure"

/-- What each parser makes of an entity without its payload: a row if it is a deletion. -/
def deletionRow (poll : Row) (entity : FeedEntity) : List Row :=
  if entity.isDeleted = some true then [poll ++ entityContext entity] else []

/-- A loop over the entities of a feed. -/
def forEntities (item : FeedEntity → Except PyError (List Row)) :
    List FeedEntity → Except PyError (List Row)
  | [] => .ok []
  | entity :: entities => do
    let rows ← item entity
    let rest ← forEntities item entities
    pure (rows ++ rest)

/-! ### Vehicle positions -/

/-- The row of a vehicle position. -/
def vehicleRow (poll : Row) (entity : FeedEntity) (vehicle : VehiclePosition) :
    Except PyError Row := do
  let position := vehicle.position.getD {}
  let details ← jsonColumn pb.messageToDict vehicle.multiCarriageDetails
  let trip ← tripDesc pb vehicle.trip
  pure (poll ++ entityContext entity ++
    [("vehicle_timestamp", uint64Value vehicle.timestamp)] ++
    vehicleDesc pb vehicle.vehicle ++
    [("latitude", floatValue position.latitude),
      ("longitude", floatValue position.longitude),
      ("bearing", floatValue position.bearing),
      ("odometer", floatValue position.odometer),
      ("speed", floatValue position.speed),
      ("current_stop_sequence", uint32Value vehicle.currentStopSequence),
      ("stop_id", orNone vehicle.stopId),
      ("current_status", int32Value vehicle.currentStatus),
      ("current_status_name", enumName pb "current_status" vehicle.currentStatus),
      ("congestion_level", int32Value vehicle.congestionLevel),
      ("congestion_level_name", enumName pb "congestion_level" vehicle.congestionLevel),
      ("occupancy_status", int32Value vehicle.occupancyStatus),
      ("occupancy_status_name", enumName pb "occupancy_status" vehicle.occupancyStatus),
      ("occupancy_percentage", uint32Value vehicle.occupancyPercentage),
      ("multi_carriage_details_json", details)] ++ trip)

/-- `parse_vehicle_positions`. -/
def parseVehiclePositions (feed : FeedMessage) (context : PollContext) :
    Except PyError (List Row) :=
  forEntities (fun entity =>
    match entity.vehicle with
    | none => .ok (deletionRow (pollContext pb feed context) entity)
    | some vehicle => do
      let row ← vehicleRow pb (pollContext pb feed context) entity vehicle
      pure [row]) feed.entity

/-! ### Trip updates -/

/-- The columns of a trip update without a stop. -/
def emptyStop : Row :=
  [("stop_time_update_index", .null), ("stop_visit_fallback_index", .null),
    ("stop_sequence", .null), ("stop_id", .null), ("stop_schedule_relationship", .null),
    ("stop_schedule_relationship_name", .null), ("departure_occupancy_status", .null),
    ("departure_occupancy_status_name", .null), ("stop_time_properties_json", .null)] ++
    stopEvent none "arrival" ++ stopEvent none "departure" ++ realcityStopUpdate none

/-- The columns of a stop: its ordinal is used where it has no sequence number. -/
def stopRow (index : ℕ) (stop : StopTimeUpdate) : Except PyError Row := do
  let properties ← messageJson pb stop.stopTimeProperties
  pure ([("stop_time_update_index", .int index),
    ("stop_visit_fallback_index", if stop.stopSequence.isNone then .int index else .null),
    ("stop_sequence", uint32Value stop.stopSequence),
    ("stop_id", orNone stop.stopId),
    ("stop_schedule_relationship", int32Value stop.scheduleRelationship),
    ("stop_schedule_relationship_name",
      enumName pb "stop_schedule_relationship" stop.scheduleRelationship),
    ("departure_occupancy_status", int32Value stop.departureOccupancyStatus),
    ("departure_occupancy_status_name",
      enumName pb "departure_occupancy_status" stop.departureOccupancyStatus),
    ("stop_time_properties_json", properties)] ++
    stopEvent stop.arrival "arrival" ++ stopEvent stop.departure "departure" ++
    realcityStopUpdate stop.realcity)

/-- The rows of the stops of a trip update. -/
def stopRows (base : Row) : ℕ → List StopTimeUpdate → Except PyError (List Row)
  | _, [] => .ok []
  | index, stop :: stops => do
    let row ← stopRow pb index stop
    let rows ← stopRows base (index + 1) stops
    pure ((base ++ row) :: rows)

/-- The rows of a trip update. -/
def tripUpdateRows (poll : Row) (entity : FeedEntity) (update : TripUpdate) :
    Except PyError (List Row) := do
  let trip ← tripDesc pb update.trip
  let properties ← messageJson pb update.tripProperties
  let base := poll ++ entityContext entity ++
    [("trip_update_timestamp", uint64Value update.timestamp),
      ("trip_delay", int32Value update.delay),
      ("trip_properties_json", properties)] ++ vehicleDesc pb update.vehicle ++ trip
  if update.stopTimeUpdate = [] then pure [base ++ emptyStop]
  else stopRows pb base 0 update.stopTimeUpdate

/-- `parse_trip_updates`. -/
def parseTripUpdates (feed : FeedMessage) (context : PollContext) : Except PyError (List Row) :=
  forEntities (fun entity =>
    match entity.tripUpdate with
    | none => .ok (deletionRow (pollContext pb feed context) entity)
    | some update => tripUpdateRows pb (pollContext pb feed context) entity update) feed.entity

/-! ### Alerts -/

/-- What `_selector` returns: the scalars, and the trip. -/
structure Selector where
  fields : Row
  trip : Row

/-- `_selector`. -/
def selector (s : EntitySelector) : Except PyError Selector := do
  let trip ← tripDesc pb s.trip
  pure
    { fields :=
        [("agency_id", orNone s.agencyId), ("route_id", orNone s.routeId),
          ("route_type", int32Value s.routeType), ("stop_id", orNone s.stopId),
          ("direction_id", uint32Value s.directionId)]
      trip }

/-- The selectors of an alert. -/
def selectors : List EntitySelector → Except PyError (List Selector)
  | [] => .ok []
  | s :: rest => do
    let s ← selector pb s
    let rest ← selectors rest
    pure (s :: rest)

/-- A selector in a JSON text. -/
def selectorJson (s : Selector) : Except PyError JsonValue := do
  let fields ← membersJson s.fields
  let trip ← rowJson s.trip
  pure (.dict (fields ++ [("trip", trip)]))

/-- An item of the lists of periods. -/
def period (p : TimeRange) : Row := [("start", uint64Value p.start), ("end", uint64Value p.stop)]

/-- `periods[0][field] if periods else None`. -/
def firstPeriod (field : String) : List TimeRange → Value
  | [] => .null
  | p :: _ => (period p).get field

/-- A route in `bkk_route_details_json`. -/
def routeJson (route : RouteDetail) : Except PyError JsonValue := do
  let fields ← membersJson
    [("route_id", route.routeId.value),
      ("cause", int32Value route.cause), ("cause_name", enumName pb "cause" route.cause),
      ("effect", int32Value route.effect), ("effect_name", enumName pb "effect" route.effect),
      ("effect_type", int32Value route.effectType),
      ("effect_type_name", enumName pb "effect_type" route.effectType)]
  let header ← listJson rowJson (translations route.headerText)
  pure (.dict (fields ++ [("header_text", .list header)]))

/-- `_realcity_alert`. -/
def realcityAlert : Option RealcityAlert → Except PyError Row
  | none => .ok [("bkk_start_text_json", .str "[]"), ("bkk_end_text_json", .str "[]"),
      ("bkk_modified_time", .null), ("bkk_route_details_json", .str "[]")]
  | some a => do
    let startText ← translationsJson a.startText
    let endText ← translationsJson a.endText
    let routes ← jsonColumn (routeJson pb) a.route
    pure [("bkk_start_text_json", startText), ("bkk_end_text_json", endText),
      ("bkk_modified_time", uint64Value a.modifiedTime), ("bkk_route_details_json", routes)]

/-- The columns of an alert that all of its rows share. -/
def alertBase (poll : Row) (entity : FeedEntity) (alert : Alert) (values : List Selector) :
    Except PyError Row := do
  let headerText ← translationsJson alert.headerText
  let descriptionText ← translationsJson alert.descriptionText
  let url ← translationsJson alert.url
  let ttsHeaderText ← translationsJson alert.ttsHeaderText
  let ttsDescriptionText ← translationsJson alert.ttsDescriptionText
  let image ← messageJson pb alert.image
  let imageAlternativeText ← translationsJson alert.imageAlternativeText
  let causeDetail ← messageJson pb alert.causeDetail
  let effectDetail ← messageJson pb alert.effectDetail
  let activePeriods ← jsonColumn rowJson (alert.activePeriod.map period)
  let communicationPeriods ← jsonColumn rowJson (alert.communicationPeriod.map period)
  let impactPeriods ← jsonColumn rowJson (alert.impactPeriod.map period)
  let informedEntities ← jsonColumn selectorJson values
  let realcity ← realcityAlert pb alert.realcity
  pure (poll ++ entityContext entity ++
    [("cause", int32Value alert.cause), ("cause_name", enumName pb "cause" alert.cause),
      ("effect", int32Value alert.effect), ("effect_name", enumName pb "effect" alert.effect),
      ("severity_level", int32Value alert.severityLevel),
      ("severity_level_name", enumName pb "severity_level" alert.severityLevel),
      ("header_text", firstTranslation alert.headerText),
      ("description_text", firstTranslation alert.descriptionText),
      ("url", firstTranslation alert.url),
      ("header_text_json", headerText),
      ("description_text_json", descriptionText),
      ("url_json", url),
      ("tts_header_text_json", ttsHeaderText),
      ("tts_description_text_json", ttsDescriptionText),
      ("image_json", image),
      ("image_alternative_text_json", imageAlternativeText),
      ("cause_detail_json", causeDetail),
      ("effect_detail_json", effectDetail),
      ("active_period_start", firstPeriod "start" alert.activePeriod),
      ("active_period_end", firstPeriod "end" alert.activePeriod),
      ("active_periods_json", activePeriods),
      ("communication_periods_json", communicationPeriods),
      ("impact_periods_json", impactPeriods),
      ("informed_entities_json", informedEntities)] ++ realcity)

/-- The columns of a selector, or of an alert without one. -/
def affected (value : Option Selector) : Row :=
  let fields := (value.map Selector.fields).getD []
  let trip := (value.map Selector.trip).getD emptyTrip
  [("affected_agency_id", fields.get "agency_id"),
    ("affected_route_id", fields.get "route_id"),
    ("affected_route_type", fields.get "route_type"),
    ("affected_stop_id", fields.get "stop_id"),
    ("affected_direction_id", fields.get "direction_id"),
    ("affected_trip_id", trip.get "trip_id"),
    ("affected_trip_route_id", trip.get "route_id"),
    ("affected_trip_direction_id", trip.get "direction_id"),
    ("affected_trip_start_time", trip.get "start_time"),
    ("affected_trip_start_date", trip.get "start_date"),
    ("affected_trip_schedule_relationship", trip.get "schedule_relationship"),
    ("affected_trip_schedule_relationship_name", trip.get "schedule_relationship_name")]

/-- `selectors or [None]`. -/
def orNoSelector (values : List Selector) : List (Option Selector) :=
  if values.isEmpty then [none] else values.map some

/-- The rows of an alert. -/
def alertRows (poll : Row) (entity : FeedEntity) (alert : Alert) : Except PyError (List Row) := do
  let values ← selectors pb alert.informedEntity
  let base ← alertBase pb poll entity alert values
  pure ((orNoSelector values).map fun value => base ++ affected value)

/-- `parse_alerts`. -/
def parseAlerts (feed : FeedMessage) (context : PollContext) : Except PyError (List Row) :=
  forEntities (fun entity =>
    match entity.alert with
    | none => .ok (deletionRow (pollContext pb feed context) entity)
    | some alert => alertRows pb (pollContext pb feed context) entity alert) feed.entity

/-- `PARSERS`. -/
def parsers : Feed → FeedMessage → PollContext → Except PyError (List Row)
  | .vehiclepositions => parseVehiclePositions pb
  | .tripupdates => parseTripUpdates pb
  | .alerts => parseAlerts pb

end

end BkkCollector.Realtime.GtfsRtParse
