/-! # The fields of a TripUpdates row

The classification of the columns a change tracker and the presence log look at. -/

namespace BkkCollector.Realtime.TripUpdatePolicy

/-- `TRIP_UPDATE_KEY_FIELDS`. -/
def tripUpdateKeyFields : List String :=
  ["entity_id", "trip_id", "start_date", "start_time", "stop_sequence",
    "stop_visit_fallback_index", "stop_id"]

/-- `TRIP_UPDATE_EXACT_MUTABLE_FIELDS`. -/
def tripUpdateExactMutableFields : List String :=
  ["entity_is_deleted", "trip_properties_json", "vehicle_id", "vehicle_label",
    "vehicle_license_plate", "vehicle_wheelchair_accessible", "bkk_vehicle_model", "bkk_deviated",
    "bkk_vehicle_type", "bkk_door_open", "route_id", "direction_id", "schedule_relationship",
    "modified_trip_json", "stop_schedule_relationship", "departure_occupancy_status",
    "stop_time_properties_json", "arrival_uncertainty", "arrival_scheduled_time",
    "departure_uncertainty", "departure_scheduled_time", "bkk_scheduled_arrival_delay",
    "bkk_scheduled_arrival_time", "bkk_scheduled_arrival_uncertainty",
    "bkk_scheduled_arrival_scheduled_time", "bkk_scheduled_departure_delay",
    "bkk_scheduled_departure_time", "bkk_scheduled_departure_uncertainty",
    "bkk_scheduled_departure_scheduled_time"]

/-- `TRIP_UPDATE_DELAY_FIELDS`. -/
def tripUpdateDelayFields : List String := ["trip_delay", "arrival_delay", "departure_delay"]

/-- `TRIP_UPDATE_PREDICTION_TIME_FIELDS`. -/
def tripUpdatePredictionTimeFields : List String := ["arrival_time", "departure_time"]

/-- `TRIP_UPDATE_DISTANCE_FIELDS`. -/
def tripUpdateDistanceFields : List String := ["bkk_stop_distance"]

/-- `TRIP_UPDATE_TOLERANT_NUMERIC_FIELDS`. -/
def tripUpdateTolerantNumericFields : List String :=
  tripUpdateDelayFields ++ tripUpdatePredictionTimeFields ++ tripUpdateDistanceFields

/-- `TRIP_IDENTITY_FIELDS`: what identifies a trip. -/
def tripIdentityFields : List String := tripUpdateKeyFields.take 4

/-- `STOP_IDENTITY_FIELDS`: what identifies a stop visit within a trip. -/
def stopIdentityFields : List String := tripUpdateKeyFields.drop 4

end BkkCollector.Realtime.TripUpdatePolicy
