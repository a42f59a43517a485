import Mathlib.Algebra.Order.Group.Abs
import Mathlib.Algebra.Order.Ring.Rat
import BkkCollector.Frontend.Values
import BkkCollector.Logic.ZeroPadding
import BkkCollector.Python.Objects

/-! # The public snapshot

The contract of the public snapshot: `isSnapshot` accepts the GeoJSON form, `decodeCompactSnapshot`
the compact one and turns it into the other; the exporter's `encode_publication` writes the compact
form. -/

namespace BkkCollector.Frontend.Snapshot

open BkkCollector.Logic.ZeroPadding BkkCollector.Python.Objects
open BkkCollector.Frontend.Strings BkkCollector.Frontend.Values

/-! ### Vocabulary -/

/-- `feedNames`. -/
def feedNames : List String := ["vehiclepositions", "tripupdates", "alerts"]

/-- `modes`. -/
def modes : List String := ["bus", "tram", "trolleybus", "metro", "rail", "ferry", "other"]

/-- `State`. -/
def states : List String := ["healthy", "degraded", "unknown"]

/-- `issueCodes`. -/
def issueCodes : List String :=
  ["absent", "http_failed", "poll_journal_failed", "protobuf_parse_failed",
    "source_timestamp_stale", "source_timestamp_frozen", "entity_timestamp_stale",
    "payload_frozen", "raw_archive_failed", "derived_spool_failed", "tripupdates_presence_failed",
    "change_tracker_failed", "request_stuck", "scheduler_overdue",
    "source_timestamp_unchanged_warning", "payload_unchanged_warning", "request_exceeds_cadence",
    "scheduler_missed_deadline"]

/-! ### Timestamps -/

/-- `\d`. -/
def isDigit (u : UInt16) : Bool := 48 ≤ u && u ≤ 57

/-- A regular expression of fixed length, where `d` stands for a digit. -/
def matchesPattern (pattern : String) (text : JsString) : Bool :=
  text.length == pattern.toList.length &&
    (pattern.toList.zip text).all fun (c, u) =>
      if c = 'd' then isDigit u else u == UInt16.ofNat c.toNat

/-- The number at some places of a text. -/
def numberAt (text : JsString) (start stop : ℕ) : ℕ :=
  ((text.take stop).drop start).foldl (fun n u => 10 * n + (u.toNat - 48)) 0

/-- The days from the first of January 1970 to a day, which may lie behind the end of its month. -/
def daysFromCivil (year month day : ℤ) : ℤ :=
  let y := if month ≤ 2 then year - 1 else year
  let yearOfEra := y % 400
  let dayOfYear := (153 * (if month ≤ 2 then month + 9 else month - 3) + 2) / 5 + day - 1
  let dayOfEra := yearOfEra * 365 + yearOfEra / 4 - yearOfEra / 100 + dayOfYear
  y / 400 * 146097 + dayOfEra - 719468

/-- The year, the month and the day that lie so many days behind the first of January 1970. -/
def civilFromDays (days : ℤ) : ℤ × ℤ × ℤ :=
  let z := days + 719468
  let dayOfEra := z % 146097
  let yearOfEra :=
    (dayOfEra - dayOfEra / 1460 + dayOfEra / 36524 - dayOfEra / 146096) / 365
  let dayOfYear := dayOfEra - (365 * yearOfEra + yearOfEra / 4 - yearOfEra / 100)
  let m := (5 * dayOfYear + 2) / 153
  let month := if m < 10 then m + 3 else m - 9
  (yearOfEra + z / 146097 * 400 + (if month ≤ 2 then 1 else 0), month,
    dayOfYear - (153 * m + 2) / 5 + 1)

/-- `Date.parse` of a text of the form `dddd-dd-ddTdd:dd:ddZ`, in milliseconds. A day up to the
31st is accepted in every month, and 24:00:00 on every day. -/
def dateParse (text : JsString) : Option ℤ :=
  let month := numberAt text 5 7
  let day := numberAt text 8 10
  let hour := numberAt text 11 13
  let minute := numberAt text 14 16
  let second := numberAt text 17 19
  if 1 ≤ month ∧ month ≤ 12 ∧ 1 ≤ day ∧ day ≤ 31 ∧ minute ≤ 59 ∧ second ≤ 59 ∧
      (hour ≤ 23 ∨ hour = 24 ∧ minute = 0 ∧ second = 0) then
    some (1000 * (86400 * daysFromCivil (numberAt text 0 4) month day + 3600 * hour + 60 * minute +
      second))
  else none

/-- A number with leading zeros. -/
def zeroPadded (width : ℕ) (n : ℤ) : JsString := (padded width n.toNat).flatMap codeUnits

/-- `new Date(t).toISOString()`. -/
def toISOString (t : ℤ) : JsString :=
  let (year, month, day) := civilFromDays (t / 86400000)
  let rest := t % 86400000
  (if 0 ≤ year ∧ year ≤ 9999 then zeroPadded 4 year
    else js (if year < 0 then "-" else "+") ++ zeroPadded 6 |year|) ++
  js "-" ++ zeroPadded 2 month ++ js "-" ++ zeroPadded 2 day ++ js "T" ++
  zeroPadded 2 (rest / 3600000) ++ js ":" ++ zeroPadded 2 (rest / 60000 % 60) ++ js ":" ++
  zeroPadded 2 (rest / 1000 % 60) ++ js "." ++ zeroPadded 3 (rest % 1000) ++ js "Z"

/-- The check of `timestamp`; the `Z` that is replaced is the last unit. -/
def isTimestamp (text : JsString) : Bool :=
  matchesPattern "dddd-dd-ddTdd:dd:ddZ" text &&
    match dateParse text with
    | some t => toISOString t == text.dropLast ++ js ".000Z"
    | none => false

/-- The distinct texts that were checked, with the results. -/
abbrev Timestamps := List (JsString × Bool)

/-- `timestamp`. -/
def timestamp (value : JsValue) (nullable : Bool) (cache : Option Timestamps) :
    Bool × Option Timestamps :=
  match value with
  | .null => (nullable, cache)
  | .string text =>
    match cache.bind (·.lookup text) with
    | some cached => (cached, cache)
    | none =>
      let valid := isTimestamp text
      (valid, cache.map ((text, valid) :: ·))
  | _ => (false, cache)

/-- `timestamp` without a cache. -/
def uncached (value : JsValue) (nullable : Bool := true) : Bool := (timestamp value nullable none).1

/-! ### Fields -/

/-- `object`. -/
def object (value : JsValue) (keys : List String) : Bool :=
  match value with
  | .object members =>
    members.length == keys.length && keys.all fun key => (members.lookup (js key)).isSome
  | _ => false

/-- `date`. -/
def date (value : JsValue) : Bool :=
  match value with
  | .string text =>
    matchesPattern "dddd-dd-dd" text && uncached (.string (text ++ js "T00:00:00Z")) false
  | _ => false

/-- `count`. -/
def count (value : JsValue) : Bool :=
  match value.numberValue with
  | some q => q.den == 1 && |q| ≤ 2 ^ 53 - 1 && 0 ≤ q
  | none => false

/-- `nullableCount`. -/
def nullableCount (value : JsValue) : Bool := value.isNull || count value

/-- `names.includes(value)`. -/
def oneOf (names : List String) (value : JsValue) : Bool := names.any value.is

/-- `state`. -/
def state (value : JsValue) : Bool := oneOf states value

/-- `finite`. -/
def finite (value : JsValue) (min max : ℚ) : Bool :=
  match value.numberValue with
  | some q => min ≤ q && q ≤ max
  | none => false

/-- `[a-f0-9]`. -/
def isHexDigit (u : UInt16) : Bool := 97 ≤ u && u ≤ 102 || isDigit u

/-- `/^[a-f0-9]{20}$/`. -/
def isId (value : JsValue) : Bool :=
  match value with
  | .string text => text.length == 20 && text.all isHexDigit
  | _ => false

/-- `/^#[a-f0-9]{6}$/`. -/
def isColor (value : JsValue) : Bool :=
  match value with
  | .string (u :: text) => u == 35 && text.length == 6 && text.all isHexDigit
  | _ => false

/-- A route label: a string of at most 48 code units. -/
def isLabel (value : JsValue) : Bool :=
  match value with
  | .string text => text.length ≤ 48
  | _ => false

/-- A bearing, or `null`. -/
def isBearing (value : JsValue) : Bool := value.isNull || finite value 0 360

/-- `typeof value === 'boolean'`. -/
def isBoolean : JsValue → Bool
  | .bool _ => true
  | _ => false

/-! ### Vehicles -/

/-- `featureKeys`. -/
def featureKeys : List String := ["type", "id", "geometry", "properties"]

/-- `pointKeys`. -/
def pointKeys : List String := ["type", "coordinates"]

/-- `propertyKeys`. -/
def propertyKeys : List String := ["route_label", "mode", "color", "bearing", "recorded_at"]

/-- `vehicle`. -/
def vehicle (value : JsValue) (timestamps : Option Timestamps) : Bool × Option Timestamps :=
  let point := value.get "geometry"
  let properties := value.get "properties"
  let coordinates := point.get "coordinates"
  if object value featureKeys && (value.get "type").is "Feature" && isId (value.get "id") &&
      (object point pointKeys && (point.get "type").is "Point" && coordinates.isArray &&
        coordinates.items.length == 2 && finite (coordinates.nth 0) (-180) 180 &&
        finite (coordinates.nth 1) (-90) 90) &&
      (object properties propertyKeys && isLabel (properties.get "route_label") &&
        oneOf modes (properties.get "mode") && isColor (properties.get "color") &&
        isBearing (properties.get "bearing")) then
    timestamp (properties.get "recorded_at") true timestamps
  else (false, timestamps)

/-- `vehicleTuple`. -/
def vehicleTuple (value : JsValue) (timestamps : Option Timestamps) : Bool × Option Timestamps :=
  if value.isArray && value.items.length == 8 && isId (value.nth 0) &&
      finite (value.nth 1) (-180) 180 && finite (value.nth 2) (-90) 90 && isLabel (value.nth 3) &&
      oneOf modes (value.nth 4) && isColor (value.nth 5) && isBearing (value.nth 6) then
    timestamp (value.nth 7) true timestamps
  else (false, timestamps)

/-! ### The envelope -/

/-- `feedHealth`. -/
def feedHealth (value : JsValue) : Bool :=
  object value ["state", "observed_at", "source_at", "cadence_seconds", "entities", "issues"] &&
    state (value.get "state") && uncached (value.get "observed_at") &&
    uncached (value.get "source_at") &&
    ((value.get "cadence_seconds").isNull || finite (value.get "cadence_seconds") 5 3600) &&
    nullableCount (value.get "entities") && (value.get "issues").isArray &&
    decide ((value.get "issues").items.length ≤ issueCodes.length) &&
    (value.get "issues").items.all (oneOf issueCodes)

/-- `dayCounts`. -/
def dayCounts (value : JsValue) : Bool :=
  object value ["expected_polls", "recorded_polls", "data_polls"] &&
    nullableCount (value.get "expected_polls") && nullableCount (value.get "recorded_polls") &&
    nullableCount (value.get "data_polls")

/-- What `envelope` checks of the vehicles. The sum of the counts is exact: one that needs rounding
is larger than every count. -/
def vehicleCollection (vehicles : JsValue) : Bool :=
  object vehicles
      ["type", "observed_at", "source_at", "records_in_source", "omitted_records", "features"] &&
    (vehicles.get "type").is "FeatureCollection" && uncached (vehicles.get "observed_at") &&
    uncached (vehicles.get "source_at") && count (vehicles.get "records_in_source") &&
    count (vehicles.get "omitted_records") && (vehicles.get "features").isArray &&
    decide ((vehicles.get "features").items.length ≤ 10000) &&
    (vehicles.get "omitted_records").numberValue.map
        (((vehicles.get "features").items.length : ℚ) + ·) ==
      (vehicles.get "records_in_source").numberValue

/-- What it checks of the health. -/
def healthSection (health : JsValue) : Bool :=
  let feeds := health.get "feeds"
  let maintenance := health.get "maintenance"
  object health ["state", "observed_at", "feeds", "maintenance"] && state (health.get "state") &&
    uncached (health.get "observed_at") &&
    (object feeds feedNames && feedNames.all fun name => feedHealth (feeds.get name)) &&
    (object maintenance ["state", "archive_enabled", "pending_days"] &&
      state (maintenance.get "state") && isBoolean (maintenance.get "archive_enabled") &&
      count (maintenance.get "pending_days"))

/-- What it checks of the latest day. -/
def latestDay (latest : JsValue) : Bool :=
  let feeds := latest.get "feeds"
  object latest ["date", "quality", "feeds"] && date (latest.get "date") &&
    oneOf ["good", "flagged"] (latest.get "quality") &&
    (object feeds feedNames && feedNames.all fun name => dayCounts (feeds.get name))

/-- What it checks of the statistics. -/
def statisticsSection (stats : JsValue) : Bool :=
  object stats
      ["as_of", "evidenced_since", "evidenced_days", "verified_days", "last_verified_date",
        "polls_recorded", "event_rows", "raw_snapshots", "latest_day"] &&
    uncached (stats.get "as_of") false && uncached (stats.get "evidenced_since") &&
    ((stats.get "last_verified_date").isNull || date (stats.get "last_verified_date")) &&
    (["evidenced_days", "verified_days", "polls_recorded", "event_rows", "raw_snapshots"].all
      fun key => count (stats.get key)) &&
    ((stats.get "latest_day").isNull || latestDay (stats.get "latest_day"))

/-- What it checks of the issues of the public layer. -/
def publicLayerIssues (issues : JsValue) : Bool :=
  issues.isArray && decide (issues.items.length ≤ 2) &&
    issues.items.all (oneOf ["route_catalog_unavailable", "vehicle_snapshot_unavailable"])

/-- `envelope`. -/
def envelope (value : JsValue) : Bool :=
  object value
      ["schema_version", "generated_at", "vehicles", "health", "statistics",
        "public_layer_issues"] &&
    (value.get "schema_version").numberValue == some 1 &&
    uncached (value.get "generated_at") false &&
    vehicleCollection (value.get "vehicles") && healthSection (value.get "health") &&
    statisticsSection (value.get "statistics") &&
    publicLayerIssues (value.get "public_layer_issues")

/-! ### Both forms -/

/-- `value.vehicles.features`. -/
def features (value : JsValue) : List JsValue := ((value.get "vehicles").get "features").items

/-- `{...value, vehicles: {...value.vehicles, features}}`. -/
def setFeatures (value : JsValue) (features : List JsValue) : JsValue :=
  value.set "vehicles" ((value.get "vehicles").set "features" (.array features))

/-- The loop of `isSnapshot`. -/
def acceptFeatures : List JsValue → Option Timestamps → List JsString → Bool
  | [], _, _ => true
  | feature :: features, timestamps, ids =>
    let (accepted, timestamps) := vehicle feature timestamps
    let id := (feature.get "id").text
    if !accepted || ids.contains id then false else acceptFeatures features timestamps (id :: ids)

/-- `isSnapshot`. -/
def isSnapshot (value : JsValue) : Bool :=
  envelope value && acceptFeatures (features value) (some []) []

/-- What `decodeCompactSnapshot` makes of a row. -/
def featureOf (row : JsValue) : JsValue :=
  .object [(js "type", .string (js "Feature")), (js "id", row.nth 0),
    (js "geometry", .object [(js "type", .string (js "Point")),
      (js "coordinates", .array [row.nth 1, row.nth 2])]),
    (js "properties", .object [(js "route_label", row.nth 3), (js "mode", row.nth 4),
      (js "color", row.nth 5), (js "bearing", row.nth 6), (js "recorded_at", row.nth 7)])]

/-- The loop of `decodeCompactSnapshot`. -/
def decodeRows : List JsValue → Option Timestamps → List JsString → Option (List JsValue)
  | [], _, _ => some []
  | row :: rows, timestamps, ids =>
    let (accepted, timestamps) := vehicleTuple row timestamps
    let id := (row.nth 0).text
    if !accepted || ids.contains id then none
    else (decodeRows rows timestamps (id :: ids)).map (featureOf row :: ·)

/-- `decodeCompactSnapshot`. -/
def decodeCompactSnapshot (value : JsValue) : Option JsValue :=
  if envelope value then
    (decodeRows (features value) (some []) []).map (setFeatures value)
  else none

/-! ### The exporter -/

/-- `value[key]` in Python. -/
def item (value : JsValue) (key : String) : Except PyError JsValue :=
  match value with
  | .object members =>
    match members.lookup (js key) with
    | some v => .ok v
    | none => .error ⟨.keyError, key⟩
  | _ => .error ⟨.typeError, "object is not subscriptable by a string"⟩

/-- The characters of a string: a surrogate pair is one. -/
def characters : JsString → List JsString
  | [] => []
  | [u] => [[u]]
  | u :: v :: rest =>
    if isHigh u && isLow v then [u, v] :: characters rest else [u] :: characters (v :: rest)

/-- `for element in value` in Python. -/
def elements (value : JsValue) : Except PyError (List JsValue) :=
  match value with
  | .array items => .ok items
  | .object members => .ok (members.map fun m => .string m.1)
  | .string s => .ok ((characters s).map .string)
  | _ => .error ⟨.typeError, "object is not iterable"⟩

/-- Neither a list nor a dict. -/
def isHashable : JsValue → Bool
  | .array _ | .object _ => false
  | _ => true

/-- `set(value) != keys`. -/
def keysDiffer (value : JsValue) (keys : List String) : Except PyError Bool := do
  let found ← elements value
  if found.all isHashable then
    .ok !(found.all (oneOf keys) && keys.all fun key => found.any (·.is key))
  else .error ⟨.typeError, "unhashable type"⟩

/-- The shape `encode_publication` refuses. -/
def unexpectedShape (feature geometry properties : JsValue) : Except PyError Bool := do
  if ← keysDiffer feature featureKeys then return true
  if !(← item feature "type").is "Feature" then return true
  if ← keysDiffer geometry pointKeys then return true
  if !(← item geometry "type").is "Point" then return true
  let coordinates ← item geometry "coordinates"
  if !coordinates.isArray || coordinates.items.length != 2 then return true
  keysDiffer properties propertyKeys

/-- The row of a feature. -/
def publicationRow (feature : JsValue) : Except PyError JsValue := do
  let geometry ← item feature "geometry"
  let properties ← item feature "properties"
  if ← unexpectedShape feature geometry properties then
    .error ⟨.valueError, "unexpected public vehicle shape"⟩
  else
    let id ← item feature "id"
    let coordinates ← item geometry "coordinates"
    let values ← propertyKeys.mapM (item properties)
    .ok (.array (id :: coordinates.items ++ values))

/-- The payload of `encode_publication`: the compact form. -/
def compact (snapshot : JsValue) : Except PyError JsValue := do
  let vehicles ← item snapshot "vehicles"
  let found ← item vehicles "features"
  let rows ← (← elements found).mapM publicationRow
  .ok (setFeatures snapshot rows)

/-- `json.dumps(payload, ensure_ascii=False, allow_nan=False).encode()`, parsed again. -/
def dumps (payload : JsValue) : Except PyError JsValue :=
  if !payload.all Option.isSome fun _ => true then
    .error ⟨.valueError, "Out of range float values are not JSON compliant"⟩
  else if !payload.all (fun _ => true) isWellFormed then
    .error ⟨.valueError, "'utf-8' codec can't encode characters: surrogates not allowed"⟩
  else .ok payload

/-- `encode_publication`, parsed again. -/
def encodePublication (snapshot : JsValue) : Except PyError JsValue := do
  dumps (← compact snapshot)

end BkkCollector.Frontend.Snapshot
