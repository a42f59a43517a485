import Mathlib.Data.List.Dedup
import BkkCollector.Config
import BkkCollector.Python.Json
import BkkCollector.Python.Objects

/-! # GTFS-Realtime messages

The messages the row parsers read, with the widths their fields have on the wire; an absent
optional field is `none`. Messages that are only handed to `MessageToDict` stay serialised. -/

namespace BkkCollector.Realtime.GtfsRealtime

open BkkCollector.Python.Objects BkkCollector.Python.Json BkkCollector.Config

/-! ### Fields -/

/-- A string field: a text, or the wire bytes if they are not UTF-8. -/
inductive Text where
  | str (s : String)
  | bytes (b : List UInt8)
  deriving DecidableEq

/-- The object the runtime returns for a string field. -/
def Text.value : Text → Value
  | .str s => .str s
  | .bytes b => .bytes b

/-- `message.field or None`: an absent string field reads as the empty string. -/
def orNone : Option Text → Value
  | none => .null
  | some t => if t.value.truthy then t.value else .null

/-- `_value` of a string field. -/
def textValue : Option Text → Value
  | none => .null
  | some t => t.value

/-- `_value` of a bool field. -/
def boolValue : Option Bool → Value
  | none => .null
  | some b => .bool b

/-- `_value` of an `int32` or enum field. -/
def int32Value : Option Int32 → Value
  | none => .null
  | some i => .int i.toInt

/-- `_value` of an `int64` field. -/
def int64Value : Option Int64 → Value
  | none => .null
  | some i => .int i.toInt

/-- `_value` of a `uint32` field. -/
def uint32Value : Option UInt32 → Value
  | none => .null
  | some n => .int n.toNat

/-- `_value` of a `uint64` field. -/
def uint64Value : Option UInt64 → Value
  | none => .null
  | some n => .int n.toNat

/-- `_value` of a finite `float` or `double` field. -/
def floatValue : Option ℚ → Value
  | none => .null
  | some q => .float q

/-! ### Messages -/

/-- A serialised message. -/
abbrev Message := List UInt8

/-- `TripDescriptor`. -/
structure TripDescriptor where
  tripId : Option Text := none
  routeId : Option Text := none
  directionId : Option UInt32 := none
  startTime : Option Text := none
  startDate : Option Text := none
  scheduleRelationship : Option Int32 := none
  modifiedTrip : Option Message := none

/-- The vehicle extension of `gtfs-realtime-realcity.proto`. -/
structure RealcityVehicle where
  vehicleModel : Option Text := none
  deviated : Option Bool := none
  vehicleType : Option Int32 := none
  doorOpen : Option Bool := none
  stopDistance : Option Int32 := none

/-- `VehicleDescriptor`. -/
structure VehicleDescriptor where
  id : Option Text := none
  label : Option Text := none
  licensePlate : Option Text := none
  wheelchairAccessible : Option Int32 := none
  realcity : Option RealcityVehicle := none

/-- `Position`. -/
structure Position where
  latitude : Option ℚ := none
  longitude : Option ℚ := none
  bearing : Option ℚ := none
  odometer : Option ℚ := none
  speed : Option ℚ := none

/-- `VehiclePosition`. -/
structure VehiclePosition where
  trip : Option TripDescriptor := none
  vehicle : Option VehicleDescriptor := none
  position : Option Position := none
  currentStopSequence : Option UInt32 := none
  stopId : Option Text := none
  currentStatus : Option Int32 := none
  timestamp : Option UInt64 := none
  congestionLevel : Option Int32 := none
  occupancyStatus : Option Int32 := none
  occupancyPercentage : Option UInt32 := none
  multiCarriageDetails : List Message := []

/-- `StopTimeEvent`. -/
structure StopTimeEvent where
  delay : Option Int32 := none
  time : Option Int64 := none
  uncertainty : Option Int32 := none
  scheduledTime : Option Int64 := none

/-- The stop time extension of `gtfs-realtime-realcity.proto`. -/
structure RealcityStopTimeUpdate where
  scheduledArrival : Option StopTimeEvent := none
  scheduledDeparture : Option StopTimeEvent := none

/-- `StopTimeUpdate`. -/
structure StopTimeUpdate where
  stopSequence : Option UInt32 := none
  stopId : Option Text := none
  arrival : Option StopTimeEvent := none
  departure : Option StopTimeEvent := none
  scheduleRelationship : Option Int32 := none
  departureOccupancyStatus : Option Int32 := none
  stopTimeProperties : Option Message := none
  realcity : Option RealcityStopTimeUpdate := none

/-- `TripUpdate`. The stops of one are bytes of a serialised message, of which there are less than
2 GiB. -/
structure TripUpdate where
  trip : Option TripDescriptor := none
  vehicle : Option VehicleDescriptor := none
  stopTimeUpdate : List StopTimeUpdate := []
  timestamp : Option UInt64 := none
  delay : Option Int32 := none
  tripProperties : Option Message := none
  size : stopTimeUpdate.length < 2 ^ 31 := by decide

/-- `TimeRange`. -/
structure TimeRange where
  start : Option UInt64 := none
  stop : Option UInt64 := none

/-- A translation of a `TranslatedString`. -/
structure Translation where
  text : Text
  language : Option Text := none

/-- `TranslatedString`. -/
structure TranslatedString where
  translation : List Translation

/-- `EntitySelector`. -/
structure EntitySelector where
  agencyId : Option Text := none
  routeId : Option Text := none
  routeType : Option Int32 := none
  stopId : Option Text := none
  directionId : Option UInt32 := none
  trip : Option TripDescriptor := none

/-- `RouteDetail` of `gtfs-realtime-realcity.proto`. -/
structure RouteDetail where
  routeId : Text
  headerText : Option TranslatedString := none
  cause : Option Int32 := none
  effect : Option Int32 := none
  effectType : Option Int32 := none

/-- The alert extension of `gtfs-realtime-realcity.proto`. -/
structure RealcityAlert where
  startText : Option TranslatedString := none
  endText : Option TranslatedString := none
  modifiedTime : Option UInt64 := none
  route : List RouteDetail := []

/-- `Alert`. -/
structure Alert where
  activePeriod : List TimeRange := []
  communicationPeriod : List TimeRange := []
  impactPeriod : List TimeRange := []
  informedEntity : List EntitySelector := []
  cause : Option Int32 := none
  effect : Option Int32 := none
  severityLevel : Option Int32 := none
  headerText : Option TranslatedString := none
  descriptionText : Option TranslatedString := none
  url : Option TranslatedString := none
  ttsHeaderText : Option TranslatedString := none
  ttsDescriptionText : Option TranslatedString := none
  image : Option Message := none
  imageAlternativeText : Option TranslatedString := none
  causeDetail : Option Message := none
  effectDetail : Option Message := none
  realcity : Option RealcityAlert := none

/-- `FeedEntity`; `others` are its message fields besides the three. -/
structure FeedEntity where
  id : Text
  isDeleted : Option Bool := none
  tripUpdate : Option TripUpdate := none
  vehicle : Option VehiclePosition := none
  alert : Option Alert := none
  others : List String := []

/-- `FeedHeader`. -/
structure FeedHeader where
  timestamp : Option UInt64 := none
  feedVersion : Option Text := none
  incrementality : Option Int32 := none

/-- `FeedMessage`. -/
structure FeedMessage where
  header : FeedHeader
  entity : List FeedEntity

/-- The protobuf runtime: the names of enum values, and `MessageToDict`. -/
structure Protobuf where
  enumName : String → ℤ → String
  messageToDict : Message → Except PyError JsonValue

/-- The message fields an entity has. -/
def FeedEntity.payloads (e : FeedEntity) : List String :=
  (if e.tripUpdate.isSome then ["trip_update"] else []) ++
    (if e.vehicle.isSome then ["vehicle"] else []) ++
    (if e.alert.isSome then ["alert"] else []) ++ e.others

end BkkCollector.Realtime.GtfsRealtime
