import Mathlib
import BkkCollector.Realtime.GtfsRtParse
import BkkCollector.Storage.ArrowTypes
import BkkCollector.Storage.SideBySide

/-! # Which feeds can be committed

Every column of a parsed row has the type its values need, but for the `uint64` fields: their
columns are `int64`.

* `rows_spec`: what the rows of a feed hold.
* `committable_iff`: a feed can be committed exactly when its stored timestamps are below `2 ^ 63`.
* `not_committable`: one timestamp above stops every later commit of its feed and date.
-/

namespace BkkCollector.Storage.FeedFits

open BkkCollector.Logic.Program BkkCollector.Python.Objects BkkCollector.Python.Json
open BkkCollector.Config
open BkkCollector.Realtime.GtfsRealtime BkkCollector.Realtime.GtfsRtParse
open BkkCollector.Storage.AtomicIo BkkCollector.Storage.ParquetStore
open BkkCollector.Storage.PartitionInvariant BkkCollector.Storage.PartitionRules
open BkkCollector.Storage.SpoolFlush
open BkkCollector.Storage.SideBySide BkkCollector.Storage.SpoolRuns
open BkkCollector.Storage.ArrowTypes

variable {pb : Protobuf}

/-! ### Values of a column's type -/

/-- A column and a value that goes into it; a text that is no UTF-8 does not get that far. -/
def Typed (p : String × Value) : Prop :=
  p.2.isBytes = true ∨ (arrowType p.1).accepts p.2 = true

theorem typed_null (c : String) : Typed (c, .null) := Or.inr rfl

theorem typed_text {c : String} (h : arrowType c = .string) (t : Text) : Typed (c, t.value) := by
  cases t with
  | str s =>
    right
    rw [h]
    rfl
  | bytes b => exact Or.inl rfl

theorem typed_str {c : String} (h : arrowType c = .string) (s : String) : Typed (c, .str s) :=
  typed_text h (.str s)

theorem typed_orNone {c : String} (h : arrowType c = .string) (t : Option Text) :
    Typed (c, orNone t) := by
  cases t with
  | none => exact typed_null c
  | some t =>
    show Typed (c, if t.value.truthy then t.value else .null)
    split
    · exact typed_text h t
    · exact typed_null c

theorem typed_textValue {c : String} (h : arrowType c = .string) (t : Option Text) :
    Typed (c, textValue t) := by
  cases t with
  | none => exact typed_null c
  | some t => exact typed_text h t

theorem typed_enumName {c : String} (h : arrowType c = .string) (enum : String)
    (i : Option Int32) : Typed (c, enumName pb enum i) := by
  cases i with
  | none => exact typed_null c
  | some i => exact typed_str h _

theorem typed_bool {c : String} (h : arrowType c = .bool) (b : Bool) : Typed (c, .bool b) := by
  right
  rw [h]
  rfl

theorem typed_boolValue {c : String} (h : arrowType c = .bool) (b : Option Bool) :
    Typed (c, boolValue b) := by
  cases b with
  | none => exact typed_null c
  | some b => exact typed_bool h b

theorem typed_floatValue {c : String} (h : arrowType c = .float64) (q : Option ℚ) :
    Typed (c, floatValue q) := by
  cases q with
  | none => exact typed_null c
  | some q =>
    right
    rw [h]
    rfl

theorem typed_int {c : String} (h : arrowType c = .int64) {i : ℤ} (hi : -2 ^ 63 ≤ i)
    (hi' : i < 2 ^ 63) : Typed (c, .int i) := by
  right
  rw [h]
  exact decide_eq_true ⟨hi, hi'⟩

theorem typed_int32Value {c : String} (h : arrowType c = .int64) (i : Option Int32) :
    Typed (c, int32Value i) := by
  cases i with
  | none => exact typed_null c
  | some i =>
    have := i.le_toInt
    have := i.toInt_lt
    exact typed_int h (by omega) (by omega)

theorem typed_int64Value {c : String} (h : arrowType c = .int64) (i : Option Int64) :
    Typed (c, int64Value i) := by
  cases i with
  | none => exact typed_null c
  | some i => exact typed_int h i.le_toInt i.toInt_lt

theorem typed_uint32Value {c : String} (h : arrowType c = .int64) (n : Option UInt32) :
    Typed (c, uint32Value n) := by
  cases n with
  | none => exact typed_null c
  | some n =>
    have := n.toNat_lt
    exact typed_int h (by omega) (by omega)

theorem typed_jsonColumn {c : String} (h : arrowType c = .string) {α : Type}
    {item : α → Except PyError JsonValue} {items : List α} {v : Value}
    (hv : jsonColumn item items = .ok v) : Typed (c, v) := by
  simp only [jsonColumn, bind_eq_ok, pure_eq_ok] at hv
  obtain ⟨values, -, rfl⟩ := hv
  exact typed_str h _

theorem typed_messageJson {c : String} (h : arrowType c = .string) {m : Option Message} {v : Value}
    (hv : messageJson pb m = .ok v) : Typed (c, v) := by
  cases m with
  | none =>
    cases hv
    exact typed_null c
  | some m =>
    simp only [messageJson, bind_eq_ok, pure_eq_ok] at hv
    obtain ⟨value, -, rfl⟩ := hv
    exact typed_str h _

/-! ### Rows -/

/-- A row whose values go into their columns, but for the timestamps `exempt`. -/
def TypedRow (exempt : List String) (row : Row) : Prop := ∀ p ∈ row, p.1 ∉ exempt → Typed p

variable {exempt : List String}

theorem TypedRow.append {r s : Row} (hr : TypedRow exempt r) (hs : TypedRow exempt s) :
    TypedRow exempt (r ++ s) := fun p hp => (List.mem_append.mp hp).elim (hr p) (hs p)

theorem typedRow_nil : TypedRow exempt [] := fun p hp => by cases hp

theorem TypedRow.cons {c : String} {v : Value} {row : Row} (h : c ∉ exempt → Typed (c, v))
    (hrow : TypedRow exempt row) : TypedRow exempt ((c, v) :: row) := by
  intro p hp
  rcases List.mem_cons.mp hp with rfl | hp
  · exact h
  · exact hrow p hp

/-- The timestamps that are `uint64` on the wire. -/
def uint64Columns : List String :=
  ["feed_header_timestamp", "vehicle_timestamp", "trip_update_timestamp", "active_period_start",
    "active_period_end", "bkk_modified_time"]

theorem typed_poll (feed : FeedMessage) (context : PollContext) (entity : FeedEntity) :
    TypedRow uint64Columns (pollContext pb feed context ++ entityContext entity) := by
  have hid : Typed ("poll_id", (context.pollId.map Value.str).getD .null) := by
    cases context.pollId with
    | none => exact typed_null _
    | some id => exact typed_str (by decide) id
  have hversion : Typed ("schema_version", .int schemaVersion) := Or.inr (by decide)
  simp (disch := decide) [TypedRow, pollContext, entityContext, hid, hversion, typed_str,
    typed_textValue, typed_int32Value, typed_enumName, typed_orNone, typed_boolValue,
    uint64Columns]

theorem typed_tripDesc {trip : Option TripDescriptor} {row : Row}
    (h : tripDesc pb trip = .ok row) : TypedRow exempt row := by
  cases trip with
  | none =>
    cases h
    simp [TypedRow, emptyTrip, typed_null]
  | some trip =>
    simp only [tripDesc, bind_eq_ok, pure_eq_ok] at h
    obtain ⟨modified, hmodified, rfl⟩ := h
    have hjson : Typed ("modified_trip_json", modified) := typed_messageJson (by decide) hmodified
    simp (disch := decide) [TypedRow, hjson, typed_orNone, typed_uint32Value, typed_int32Value,
      typed_enumName]

theorem typed_vehicleDesc (vehicle : Option VehicleDescriptor) :
    TypedRow exempt (vehicleDesc pb vehicle) := by
  refine TypedRow.append ?_ ?_
  · simp (disch := decide) [TypedRow, typed_orNone, typed_textValue, typed_int32Value,
      typed_enumName]
  · cases (vehicle.getD {}).realcity with
    | none => simp [TypedRow, realcityVehicle, typed_null]
    | some v =>
      simp (disch := decide) [TypedRow, realcityVehicle, typed_textValue, typed_bool,
        typed_int32Value, typed_boolValue]

theorem typed_stopEvent (event : Option StopTimeEvent) {stem : String}
    (h : ∀ suffix ∈ ["_delay", "_time", "_uncertainty", "_scheduled_time"],
      arrowType (stem ++ suffix) = .int64) : TypedRow exempt (stopEvent event stem) := by
  simp only [List.forall_mem_cons] at h
  obtain ⟨hdelay, htime, huncertainty, hscheduled, -⟩ := h
  simp [TypedRow, stopEvent, typed_int32Value hdelay, typed_int64Value htime,
    typed_int32Value huncertainty, typed_int64Value hscheduled]

theorem typed_realcityStopUpdate (extension : Option RealcityStopTimeUpdate) :
    TypedRow exempt (realcityStopUpdate extension) :=
  (typed_stopEvent _ (by decide +kernel)).append (typed_stopEvent _ (by decide +kernel))

theorem typed_emptyStop : TypedRow exempt emptyStop := by
  refine (((?_ : TypedRow exempt _).append (typed_stopEvent none (by decide +kernel))).append
    (typed_stopEvent none (by decide +kernel))).append (typed_realcityStopUpdate none)
  simp [TypedRow, typed_null]

/-! ### The rows of an entity -/

/-- The payload a feed is about. -/
def hasPayload : Feed → FeedEntity → Bool
  | .vehiclepositions, e => e.vehicle.isSome
  | .tripupdates, e => e.tripUpdate.isSome
  | .alerts, e => e.alert.isSome

/-- An entity that becomes rows. -/
def Yields (feed : Feed) (e : FeedEntity) : Prop :=
  hasPayload feed e = true ∨ e.isDeleted = some true

/-- The `uint64` columns of the rows of an entity, with the fields they hold. -/
def stamps (feed : Feed) (message : FeedMessage) (e : FeedEntity) : List (String × Option UInt64) :=
  ("feed_header_timestamp", message.header.timestamp) ::
    match feed with
    | .vehiclepositions => [("vehicle_timestamp", e.vehicle.bind VehiclePosition.timestamp)]
    | .tripupdates => [("trip_update_timestamp", e.tripUpdate.bind TripUpdate.timestamp)]
    | .alerts =>
      let period := e.alert.bind fun a => a.activePeriod.head?
      [("active_period_start", period.bind TimeRange.start),
        ("active_period_end", period.bind TimeRange.stop),
        ("bkk_modified_time", (e.alert.bind Alert.realcity).bind RealcityAlert.modifiedTime)]

/-- What a row of an entity holds: its timestamps, and values of the types of their columns. -/
structure RowOf (feed : Feed) (message : FeedMessage) (e : FeedEntity) (row : Row) : Prop where
  typed : TypedRow uint64Columns row
  stamp : ∀ p ∈ stamps feed message e, row.get p.1 = uint64Value p.2

variable {message : FeedMessage} {context : PollContext} {e : FeedEntity} {rows : List Row}

/-- What the rows of an entity are, as its parser returns them. -/
structure RowsOf (feed : Feed) (message : FeedMessage) (e : FeedEntity) (rows : List Row) :
    Prop where
  each : ∀ row ∈ rows, RowOf feed message e row
  nonempty : rows ≠ [] ↔ Yields feed e

/-- An entity without the payload of its feed. -/
theorem rowsOf_deletion {feed : Feed} (h : hasPayload feed e = false) :
    RowsOf feed message e (deletionRow (pollContext pb message context) e) := by
  unfold deletionRow
  split_ifs with hdeleted
  · refine ⟨fun row hrow => ?_, iff_of_true (List.cons_ne_nil _ _) (Or.inr hdeleted)⟩
    obtain rfl := List.mem_singleton.mp hrow
    refine ⟨typed_poll message context e, ?_⟩
    cases feed with
    | vehiclepositions =>
      obtain hnone : e.vehicle = none := by simpa [hasPayload] using h
      simp [stamps, hnone, Row.get, pollContext, entityContext, List.lookup, uint64Value]
    | tripupdates =>
      obtain hnone : e.tripUpdate = none := by simpa [hasPayload] using h
      simp [stamps, hnone, Row.get, pollContext, entityContext, List.lookup, uint64Value]
    | alerts =>
      obtain hnone : e.alert = none := by simpa [hasPayload] using h
      simp [stamps, hnone, Row.get, pollContext, entityContext, List.lookup, uint64Value]
  · refine ⟨fun row hrow => absurd hrow List.not_mem_nil,
      iff_of_false (not_not.mpr rfl) fun hy => ?_⟩
    rcases hy with hy | hy
    · rw [h] at hy
      cases hy
    · exact hdeleted hy

theorem rowsOf_vehicle {v : VehiclePosition} (hv : e.vehicle = some v) {row : Row}
    (h : vehicleRow pb (pollContext pb message context) e v = .ok row) :
    RowsOf .vehiclepositions message e [row] := by
  simp only [vehicleRow, bind_eq_ok, pure_eq_ok] at h
  obtain ⟨details, hdetails, trip, htrip, rfl⟩ := h
  have hjson : Typed ("multi_carriage_details_json", details) :=
    typed_jsonColumn (by decide) hdetails
  refine ⟨fun row hrow => ?_, iff_of_true (List.cons_ne_nil _ _) (Or.inl (by simp [hasPayload, hv]))⟩
  obtain rfl := List.mem_singleton.mp hrow
  refine ⟨?_, ?_⟩
  · refine ((((typed_poll message context e).append ?_).append (typed_vehicleDesc v.vehicle)).append
      ?_).append (typed_tripDesc htrip)
    · simp [TypedRow, uint64Columns]
    · simp (disch := decide) [TypedRow, hjson, typed_floatValue, typed_uint32Value,
        typed_orNone, typed_int32Value, typed_enumName]
  · simp only [stamps, hv, List.forall_mem_cons]
    exact ⟨rfl, rfl, fun p hp => by cases hp⟩

theorem typed_stopRow {index : ℕ} (hindex : index < 2 ^ 63) {stop : StopTimeUpdate} {row : Row}
    (h : stopRow pb index stop = .ok row) : TypedRow exempt row := by
  simp only [stopRow, bind_eq_ok, pure_eq_ok] at h
  obtain ⟨properties, hproperties, rfl⟩ := h
  have hjson : Typed ("stop_time_properties_json", properties) :=
    typed_messageJson (by decide) hproperties
  have hint : ∀ c, arrowType c = .int64 → Typed (c, .int index) := fun c hc =>
    typed_int hc (by omega) (by omega)
  have hordinal : Typed ("stop_visit_fallback_index",
      if stop.stopSequence = none then .int index else .null) := by
    split
    · exact hint _ (by decide)
    · exact typed_null _
  refine (((?_ : TypedRow exempt _).append (typed_stopEvent _ (by decide +kernel))).append
    (typed_stopEvent _ (by decide +kernel))).append (typed_realcityStopUpdate _)
  simp (disch := decide) [TypedRow, hjson, hint, hordinal, typed_uint32Value, typed_orNone,
    typed_int32Value, typed_enumName]

/-- A row of a trip update: the columns all of them share, and those of a stop. -/
theorem rowOf_tripUpdate {u : TripUpdate} (hu : e.tripUpdate = some u) {properties : Value}
    (hproperties : messageJson pb u.tripProperties = .ok properties) {trip stop : Row}
    (htrip : tripDesc pb u.trip = .ok trip) (hstop : TypedRow uint64Columns stop) :
    RowOf .tripupdates message e (pollContext pb message context ++ entityContext e ++
      [("trip_update_timestamp", uint64Value u.timestamp), ("trip_delay", int32Value u.delay),
        ("trip_properties_json", properties)] ++ vehicleDesc pb u.vehicle ++ trip ++ stop) := by
  have hjson : Typed ("trip_properties_json", properties) :=
    typed_messageJson (by decide) hproperties
  refine ⟨?_, ?_⟩
  · refine ((((typed_poll message context e).append ?_).append (typed_vehicleDesc u.vehicle)).append
      (typed_tripDesc htrip)).append hstop
    simp (disch := decide) [TypedRow, hjson, typed_int32Value, uint64Columns]
  · simp only [stamps, hu, List.forall_mem_cons]
    exact ⟨rfl, rfl, fun p hp => by cases hp⟩

theorem stopRows_spec {base : Row} {index : ℕ} {stops : List StopTimeUpdate} {rows : List Row}
    (h : stopRows pb base index stops = .ok rows) (hindex : index + stops.length < 2 ^ 63) :
    rows.length = stops.length ∧
      ∀ row ∈ rows, ∃ stop, row = base ++ stop ∧ TypedRow uint64Columns stop := by
  induction stops generalizing index rows with
  | nil =>
    cases h
    simp
  | cons stop stops ih =>
    simp only [stopRows, bind_eq_ok, pure_eq_ok] at h
    obtain ⟨row, hrow, rest, hrest, rfl⟩ := h
    rw [List.length_cons] at hindex
    obtain ⟨hlength, hrows⟩ := ih hrest (by omega)
    refine ⟨by rw [List.length_cons, List.length_cons, hlength], ?_⟩
    rw [List.forall_mem_cons]
    exact ⟨⟨row, rfl, typed_stopRow (by omega) hrow⟩, hrows⟩

theorem rowsOf_tripUpdate {u : TripUpdate} (hu : e.tripUpdate = some u)
    (h : tripUpdateRows pb (pollContext pb message context) e u = .ok rows) :
    RowsOf .tripupdates message e rows := by
  have hyields : Yields .tripupdates e := Or.inl (by simp [hasPayload, hu])
  simp only [tripUpdateRows, bind_eq_ok] at h
  obtain ⟨trip, htrip, properties, hproperties, h⟩ := h
  split_ifs at h with hstops
  · rw [pure_eq_ok] at h
    subst h
    refine ⟨fun row hrow => ?_, iff_of_true (List.cons_ne_nil _ _) hyields⟩
    obtain rfl := List.mem_singleton.mp hrow
    exact rowOf_tripUpdate hu hproperties htrip typed_emptyStop
  · have hsize := u.size
    obtain ⟨hlength, hrows⟩ := stopRows_spec h (by omega)
    refine ⟨fun row hrow => ?_, iff_of_true (fun hnil => hstops ?_) hyields⟩
    · obtain ⟨stop, rfl, hstop⟩ := hrows row hrow
      exact rowOf_tripUpdate hu hproperties htrip hstop
    · rw [hnil] at hlength
      exact List.eq_nil_of_length_eq_zero hlength.symm

/-! ### Alerts -/

theorem TypedRow.get {row : Row} (h : TypedRow exempt row) {c d : String} (hc : c ∉ exempt)
    (hcd : arrowType c = arrowType d) : Typed (d, row.get c) := by
  unfold Row.get
  cases hl : row.lookup c with
  | none => exact typed_null d
  | some v =>
    have hmem : (c, v) ∈ row := by
      obtain ⟨l, r, hsplit, -⟩ := List.lookup_eq_some_iff.mp hl
      simp [hsplit]
    rcases h _ hmem hc with hb | ha
    · exact Or.inl hb
    · right
      rw [← hcd]
      exact ha

theorem selectors_mem {informed : List EntitySelector} {values : List Selector}
    (h : selectors pb informed = .ok values) :
    ∀ s ∈ values, ∃ entity, selector pb entity = .ok s := by
  induction informed generalizing values with
  | nil =>
    cases h
    simp
  | cons entity informed ih =>
    simp only [selectors, bind_eq_ok, pure_eq_ok] at h
    obtain ⟨s, hs, rest, hrest, rfl⟩ := h
    rw [List.forall_mem_cons]
    exact ⟨⟨entity, hs⟩, ih hrest⟩

theorem typed_affected {informed : List EntitySelector} {values : List Selector}
    (h : selectors pb informed = .ok values) {value : Option Selector}
    (hvalue : value ∈ orNoSelector values) : TypedRow uint64Columns (affected value) := by
  unfold orNoSelector at hvalue
  split_ifs at hvalue
  · obtain rfl := List.mem_singleton.mp hvalue
    simp [TypedRow, affected, Row.get, emptyTrip, List.lookup, typed_null]
  · obtain ⟨s, hs, rfl⟩ := List.mem_map.mp hvalue
    obtain ⟨entity, hselector⟩ := selectors_mem h s hs
    simp only [selector, bind_eq_ok, pure_eq_ok] at hselector
    obtain ⟨trip, htrip, rfl⟩ := hselector
    have hdesc : TypedRow [] trip := typed_tripDesc htrip
    have htyped : ∀ c d, arrowType c = arrowType d → Typed (d, trip.get c) := fun c d hcd =>
      hdesc.get List.not_mem_nil hcd
    simp (disch := decide) [TypedRow, affected, Row.get, List.lookup, typed_orNone,
      typed_int32Value, typed_uint32Value]
    exact ⟨fun _ => htyped "trip_id" _ (by decide), fun _ => htyped "route_id" _ (by decide),
      fun _ => htyped "direction_id" _ (by decide), fun _ => htyped "start_time" _ (by decide),
      fun _ => htyped "start_date" _ (by decide),
      fun _ => htyped "schedule_relationship" _ (by decide),
      fun _ => htyped "schedule_relationship_name" _ (by decide)⟩

theorem typed_firstTranslation {c : String} (h : arrowType c = .string)
    (x : Option TranslatedString) : Typed (c, firstTranslation x) := by
  rcases x with _ | ⟨_ | ⟨t, ts⟩⟩
  · exact typed_null c
  · exact typed_null c
  · exact typed_text h t.text

/-- The columns of the extension, and its timestamp. -/
theorem realcityAlert_typed {a : Option RealcityAlert} {row : Row}
    (h : realcityAlert pb a = .ok row) : TypedRow uint64Columns row ∧
      ∃ s t r, row = [("bkk_start_text_json", s), ("bkk_end_text_json", t),
        ("bkk_modified_time", uint64Value (a.bind RealcityAlert.modifiedTime)),
        ("bkk_route_details_json", r)] := by
  cases a with
  | none =>
    cases h
    refine ⟨?_, _, _, _, rfl⟩
    simp (disch := decide) [TypedRow, typed_str, typed_null]
  | some a =>
    simp only [realcityAlert, bind_eq_ok, pure_eq_ok] at h
    obtain ⟨s, hs, t, ht, r, hr, rfl⟩ := h
    have hstart : Typed ("bkk_start_text_json", s) := typed_jsonColumn (by decide) hs
    have hend : Typed ("bkk_end_text_json", t) := typed_jsonColumn (by decide) ht
    have hroutes : Typed ("bkk_route_details_json", r) := typed_jsonColumn (by decide) hr
    refine ⟨?_, _, _, _, rfl⟩
    simp [TypedRow, hstart, hend, hroutes, uint64Columns]

theorem firstPeriod_start (periods : List TimeRange) :
    firstPeriod "start" periods = uint64Value (periods.head?.bind TimeRange.start) := by
  cases periods <;> rfl

theorem firstPeriod_end (periods : List TimeRange) :
    firstPeriod "end" periods = uint64Value (periods.head?.bind TimeRange.stop) := by
  cases periods <;> rfl

theorem rowsOf_alert {a : Alert} (ha : e.alert = some a)
    (h : alertRows pb (pollContext pb message context) e a = .ok rows) :
    RowsOf .alerts message e rows := by
  simp only [alertRows, alertBase, bind_eq_ok, pure_eq_ok] at h
  obtain ⟨values, hvalues, base, ⟨headerText, hheader, descriptionText, hdescription, url, hurl,
    ttsHeader, httsHeader, ttsDescription, httsDescription, image, himage, alternative,
    halternative, causeDetail, hcause, effectDetail, heffect, active, hactive, communication,
    hcommunication, impact, himpact, informed, hinformed, realcity, hrealcity, rfl⟩, rfl⟩ := h
  have h1 : Typed ("header_text_json", headerText) := typed_jsonColumn (by decide) hheader
  have h2 : Typed ("description_text_json", descriptionText) :=
    typed_jsonColumn (by decide) hdescription
  have h3 : Typed ("url_json", url) := typed_jsonColumn (by decide) hurl
  have h4 : Typed ("tts_header_text_json", ttsHeader) := typed_jsonColumn (by decide) httsHeader
  have h5 : Typed ("tts_description_text_json", ttsDescription) :=
    typed_jsonColumn (by decide) httsDescription
  have h6 : Typed ("image_json", image) := typed_messageJson (by decide) himage
  have h7 : Typed ("image_alternative_text_json", alternative) :=
    typed_jsonColumn (by decide) halternative
  have h8 : Typed ("cause_detail_json", causeDetail) := typed_messageJson (by decide) hcause
  have h9 : Typed ("effect_detail_json", effectDetail) := typed_messageJson (by decide) heffect
  have h10 : Typed ("active_periods_json", active) := typed_jsonColumn (by decide) hactive
  have h11 : Typed ("communication_periods_json", communication) :=
    typed_jsonColumn (by decide) hcommunication
  have h12 : Typed ("impact_periods_json", impact) := typed_jsonColumn (by decide) himpact
  have h13 : Typed ("informed_entities_json", informed) := typed_jsonColumn (by decide) hinformed
  obtain ⟨htyped, s, t, r, rfl⟩ := realcityAlert_typed hrealcity
  refine ⟨fun row hrow => ?_, iff_of_true (fun hnil => ?_) (Or.inl (by simp [hasPayload, ha]))⟩
  · obtain ⟨value, hvalue, rfl⟩ := List.mem_map.mp hrow
    refine ⟨?_, ?_⟩
    · refine (((typed_poll message context e).append ?_).append htyped).append
        (typed_affected hvalues hvalue)
      simp (disch := decide) [TypedRow, h1, h2, h3, h4, h5, h6, h7, h8, h9, h10, h11, h12, h13,
        typed_int32Value, typed_enumName, typed_firstTranslation, uint64Columns]
    · simp only [stamps, ha, List.forall_mem_cons, Option.bind_some]
      exact ⟨rfl, firstPeriod_start _, firstPeriod_end _, rfl, fun p hp => by cases hp⟩
  · rw [List.map_eq_nil_iff, orNoSelector] at hnil
    split_ifs at hnil with hempty
    rw [List.map_eq_nil_iff] at hnil
    rw [hnil] at hempty
    exact hempty rfl

/-! ### The rows of a feed -/

theorem forEntities_spec {feed : Feed} {item : FeedEntity → Except PyError (List Row)}
    (hitem : ∀ e own, item e = .ok own → RowsOf feed message e own) {entities : List FeedEntity}
    (h : forEntities item entities = .ok rows) :
    (∀ row ∈ rows, ∃ e ∈ entities, Yields feed e ∧ RowOf feed message e row) ∧
      ∀ e ∈ entities, Yields feed e → ∃ row ∈ rows, RowOf feed message e row := by
  induction entities generalizing rows with
  | nil =>
    cases h
    simp
  | cons entity entities ih =>
    simp only [forEntities, bind_eq_ok, pure_eq_ok] at h
    obtain ⟨own, hown, rest, hrest, rfl⟩ := h
    obtain ⟨hrows, hentities⟩ := ih hrest
    have hspec := hitem entity own hown
    refine ⟨fun row hrow => ?_, fun e he hyields => ?_⟩
    · rcases List.mem_append.mp hrow with hrow | hrow
      · exact ⟨entity, List.mem_cons_self, hspec.nonempty.mp (List.ne_nil_of_mem hrow),
          hspec.each row hrow⟩
      · obtain ⟨e, he, h⟩ := hrows row hrow
        exact ⟨e, List.mem_cons_of_mem _ he, h⟩
    · rcases List.mem_cons.mp he with rfl | he
      · obtain ⟨row, hrow⟩ := List.exists_mem_of_ne_nil _ (hspec.nonempty.mpr hyields)
        exact ⟨row, List.mem_append_left _ hrow, hspec.each row hrow⟩
      · obtain ⟨row, hrow, h⟩ := hentities e he hyields
        exact ⟨row, List.mem_append_right _ hrow, h⟩

/-- **The rows of a feed**: each is a row of an entity, and each entity that yields rows has one. -/
theorem rows_spec {feed : Feed} (h : parsers pb feed message context = .ok rows) :
    (∀ row ∈ rows, ∃ e ∈ message.entity, Yields feed e ∧ RowOf feed message e row) ∧
      ∀ e ∈ message.entity, Yields feed e → ∃ row ∈ rows, RowOf feed message e row := by
  cases feed with
  | vehiclepositions =>
    refine forEntities_spec (fun e own hown => ?_) h
    cases hv : e.vehicle with
    | none =>
      rw [hv] at hown
      cases hown
      exact rowsOf_deletion (by simp [hasPayload, hv])
    | some v =>
      simp only [hv, bind_eq_ok, pure_eq_ok] at hown
      obtain ⟨row, hrow, rfl⟩ := hown
      exact rowsOf_vehicle hv hrow
  | tripupdates =>
    refine forEntities_spec (fun e own hown => ?_) h
    cases hu : e.tripUpdate with
    | none =>
      rw [hu] at hown
      cases hown
      exact rowsOf_deletion (by simp [hasPayload, hu])
    | some u =>
      rw [hu] at hown
      exact rowsOf_tripUpdate hu hown
  | alerts =>
    refine forEntities_spec (fun e own hown => ?_) h
    cases ha : e.alert with
    | none =>
      rw [ha] at hown
      cases hown
      exact rowsOf_deletion (by simp [hasPayload, ha])
    | some a =>
      rw [ha] at hown
      exact rowsOf_alert ha hown

/-! ### When the rows of a feed fit -/

/-- A timestamp `int64` holds. -/
def InRange (t : Option UInt64) : Prop := ∀ n, t = some n → n.toNat < 2 ^ 63

/-- **A feed that can be stored**: every timestamp that becomes a column is below `2 ^ 63`. -/
def Storable (feed : Feed) (message : FeedMessage) : Prop :=
  ∀ e ∈ message.entity, Yields feed e → ∀ p ∈ stamps feed message e, InRange p.2

/-- Every integer in a column fits the type of the column. -/
def AllFit (feed : Feed) (rows : List Row) : Prop :=
  ∀ row ∈ rows, ∀ c ∈ parquetColumns feed, ∀ i, row.get c = .int i → (arrowType c).fits i = true

theorem stamps_columns (feed : Feed) (e : FeedEntity) : ∀ p ∈ stamps feed message e,
    p.1 ∈ parquetColumns feed ∧ arrowType p.1 = .int64 := by
  cases feed with
  | vehiclepositions =>
    simp only [stamps, List.forall_mem_cons]
    exact ⟨by decide, by decide, fun p hp => by cases hp⟩
  | tripupdates =>
    simp only [stamps, List.forall_mem_cons]
    exact ⟨by decide, by decide, fun p hp => by cases hp⟩
  | alerts =>
    simp only [stamps, List.forall_mem_cons]
    exact ⟨by decide, by decide, by decide, by decide, fun p hp => by cases hp⟩

/-- The `uint64` columns of a feed are those of the stamps. -/
theorem stamp_of_column {feed : Feed} (message : FeedMessage) (e : FeedEntity) {c : String}
    (hc : c ∈ parquetColumns feed) (h : c ∈ uint64Columns) :
    ∃ t, (c, t) ∈ stamps feed message e := by
  have hnames : ∀ f : Feed, ∀ c ∈ uint64Columns, c ∈ parquetColumns f →
      c ∈ match f with
        | .vehiclepositions => ["feed_header_timestamp", "vehicle_timestamp"]
        | .tripupdates => ["feed_header_timestamp", "trip_update_timestamp"]
        | .alerts => ["feed_header_timestamp", "active_period_start", "active_period_end",
            "bkk_modified_time"] := by
    intro f
    cases f <;> decide +kernel
  have hname := hnames feed c h hc
  have hmap : c ∈ (stamps feed message e).map Prod.fst := by
    cases feed <;> exact hname
  obtain ⟨⟨c', t⟩, hp, rfl⟩ := List.mem_map.mp hmap
  exact ⟨t, hp⟩

theorem fits_int64 {n : UInt64} :
    ArrowType.int64.fits (n.toNat : ℤ) = true ↔ n.toNat < 2 ^ 63 := by
  simp only [ArrowType.fits, decide_eq_true_eq]
  omega

/-- What the rows of a stored feed hold. -/
theorem RowOf.cases {feed : Feed} {row : Row} (h : RowOf feed message e row) {c : String}
    (hc : c ∈ parquetColumns feed) : (∃ t, (c, t) ∈ stamps feed message e ∧
      row.get c = uint64Value t) ∨ Typed (c, row.get c) := by
  by_cases h64 : c ∈ uint64Columns
  · obtain ⟨t, ht⟩ := stamp_of_column message e hc h64
    exact Or.inl ⟨t, ht, h.stamp _ ht⟩
  · exact Or.inr (h.typed.get h64 rfl)

/-- **Integers fit exactly when the stored timestamps do.** -/
theorem allFit_iff {feed : Feed} (h : parsers pb feed message context = .ok rows) :
    AllFit feed rows ↔ Storable feed message := by
  obtain ⟨hrows, hentities⟩ := rows_spec h
  constructor
  · intro hfit e he hyields p hp n hn
    obtain ⟨row, hrow, hspec⟩ := hentities e he hyields
    obtain ⟨hcolumn, htype⟩ := stamps_columns feed e p hp
    have hvalue : row.get p.1 = .int n.toNat := by
      rw [hspec.stamp p hp, hn]
      rfl
    have := hfit row hrow p.1 hcolumn _ hvalue
    rw [htype] at this
    exact fits_int64.mp this
  · intro hstorable row hrow c hc i hi
    obtain ⟨e, he, hyields, hspec⟩ := hrows row hrow
    rcases hspec.cases hc with ⟨t, ht, hvalue⟩ | htyped
    · obtain ⟨-, htype⟩ := stamps_columns feed e _ ht
      rw [hi] at hvalue
      cases t with
      | none => cases hvalue
      | some n =>
        rw [htype, Value.int.inj hvalue]
        exact fits_int64.mpr (hstorable e he hyields _ ht n rfl)
    · rw [hi] at htyped
      exact htyped.resolve_left Bool.false_ne_true

/-- Text `json.dumps` can write: what `stage` accepts. -/
def Stageable (row : Row) : Prop := ∀ c, (row.get c).isBytes = false

/-- A staged row of a storable feed goes into its columns. -/
theorem convertible_of_storable {feed : Feed} (h : parsers pb feed message context = .ok rows)
    (hstorable : Storable feed message) {row : Row} (hrow : row ∈ rows) (hstage : Stageable row) :
    convertible feed row = true := by
  obtain ⟨e, he, hyields, hspec⟩ := (rows_spec h).1 row hrow
  refine List.all_eq_true.mpr fun c hc => ?_
  rcases hspec.cases hc with ⟨t, ht, hvalue⟩ | htyped
  · obtain ⟨-, htype⟩ := stamps_columns feed e _ ht
    rw [hvalue, htype]
    cases t with
    | none => rfl
    | some n =>
      rw [uint64Value, ArrowType.accepts]
      exact fits_int64.mpr (hstorable e he hyields _ ht n rfl)
  · exact htyped.resolve_left (by rw [hstage c]; exact Bool.false_ne_true)

/-! ### Flushing converted rows -/

/-- The segments of a partition are those it had. -/
def Shrinks (p q : Partition) : Prop :=
  ∀ name rows, q.segments.lookup name = some rows → p.segments.lookup name = some rows

theorem Shrinks.refl (p : Partition) : Shrinks p p := fun _ _ h => h

theorem moves_unlinkSegment (name : String) : (unlinkSegment name).Moves Shrinks := by
  refine moves_unlink Shrinks.refl fun p n rows hn => ?_
  by_cases hname : n = name
  · subst hname
    rw [AList.lookup_erase] at hn
    cases hn
  · rwa [AList.lookup_erase_ne hname] at hn

theorem moves_unlinkCommit (d : String) : (unlinkCommit d).Moves Shrinks :=
  moves_unlink Shrinks.refl Shrinks.refl

theorem moves_recoverCommit (d : String) : (recoverCommit d).Moves Shrinks := by
  refine (moves_readJson Shrinks.refl).bind fun transaction => ?_
  cases transaction with
  | none => exact trivial
  | some marker =>
    dsimp only
    split
    · exact trivial
    · refine (moves_validOutput Shrinks.refl _ _).bind fun b => ?_
      cases b with
      | true =>
        exact (moves_unlinkSegments (fun name => moves_ignoreMissing (moves_unlinkSegment name))
          _).bind fun _ => moves_unlinkCommit d
      | false =>
        refine (moves_allPresent Shrinks.refl _).bind fun present => ?_
        cases present with
        | true => exact moves_unlinkCommit d
        | false => exact trivial

theorem moves_commitSegments (digest : List String → String) (feed : Feed)
    (segments : List String) : (commitSegments digest feed segments).Moves Shrinks := by
  refine (moves_readSegments Shrinks.refl segments).bind fun rows => ?_
  refine Prog.Moves.bind (moves_atomicWriteBytes Shrinks.refl ?_ ?_ ?_) fun _ => ?_
  · exact Shrinks.refl
  · exact Shrinks.refl
  · exact Shrinks.refl
  refine (moves_validOutput Shrinks.refl _ _).bind fun b => ?_
  have hrest : ∀ output n, (do
      if (← parquetRowCount output) ≠ n then
        throw ⟨.osError, "row-count validation failed for " ++ output.text⟩
      unlinkSegments unlinkSegment segments
      unlinkCommit (digest segments)
      pure (output, n) : PartitionProg (PartName × ℕ)).Moves Shrinks := by
    intro output n
    refine (moves_fsRead Shrinks.refl).bind fun count => ?_
    split
    · exact trivial
    · exact (moves_unlinkSegments moves_unlinkSegment _).bind fun _ =>
        (moves_unlinkCommit _).bind fun _ => trivial
  cases b with
  | true => exact hrest _ _
  | false =>
    refine (moves_writeParquetAtomic Shrinks.refl feed (moves_readSegments Shrinks.refl segments)
      (fun p => ?_) fun p file => ?_).bind fun _ => hrest _ _
    · exact Shrinks.refl p
    · exact Shrinks.refl p

/-- Every partition shrinks. -/
def Drains (disk disk' : Disk) : Prop :=
  ∀ key, Shrinks (partitionAt key disk) (partitionAt key disk')

theorem Drains.refl (disk : Disk) : Drains disk disk := fun _ => Shrinks.refl _

theorem moves_recoverMarkers (key : Key) (digests : List String) (acc : FlushResult × List Key) :
    (recoverMarkers key digests acc).Moves Drains := by
  induction digests generalizing acc with
  | nil => exact trivial
  | cons digest digests ih =>
    unfold recoverMarkers
    refine (moves_onPartition Shrinks.refl (moves_recoverCommit digest) key).attempt.bind fun r => ?_
    cases r with
    | ok _ => exact ih _
    | error e => exact ih _

theorem moves_recoverCommits (groups : List (Key × List String)) (acc : FlushResult × List Key) :
    (recoverCommits groups acc).Moves Drains := by
  induction groups generalizing acc with
  | nil => exact trivial
  | cons group groups ih =>
    unfold recoverCommits
    exact (moves_recoverMarkers group.1 group.2 acc).bind fun acc => ih acc

section Flush

variable {digest : List String → String} {shouldStop : Key → List String → Bool}

theorem moves_flushBatches (key : Key) (batches : List (List String)) (result : FlushResult) :
    (flushBatches digest shouldStop key batches result).Moves Drains := by
  induction batches generalizing result with
  | nil => exact trivial
  | cons batch rest ih =>
    unfold flushBatches
    split
    · exact trivial
    · refine (moves_onPartition Shrinks.refl (moves_commitSegments digest key.1 batch)
        key).attempt.bind fun r => ?_
      cases r with
      | ok _ => exact ih _
      | error e => exact trivial

theorem moves_flushGroups (blocked : List Key) (groups : List (Key × List String))
    (result : FlushResult) :
    (flushGroups digest shouldStop blocked groups result).Moves Drains := by
  induction groups generalizing result with
  | nil => exact trivial
  | cons group groups ih =>
    obtain ⟨key, segments⟩ := group
    unfold flushGroups
    split
    · exact ih result
    · refine (moves_flushBatches key _ result).bind fun r => ?_
      obtain ⟨result, stopped⟩ := r
      cases stopped with
      | true => exact trivial
      | false => exact ih result

/-- **A flush adds no segment** to any partition. -/
theorem moves_flush (force due : Bool) : (flush digest force due shouldStop).Moves Drains := by
  have hkeys : listPartitions.Moves Drains := moves_fsRead Drains.refl
  have hcommits : ∀ keys, (listEach (fun _ => listCommits) keys).Moves Drains :=
    moves_listEach Shrinks.refl fun _ => moves_fsRead Shrinks.refl
  have hsegments : ∀ keys, (listEach (fun _ => listSegments) keys).Moves Drains :=
    moves_listEach Shrinks.refl fun _ => moves_fsRead Shrinks.refl
  unfold flush
  refine hkeys.bind fun keys => (hcommits keys).bind fun markers => ?_
  refine (moves_recoverCommits markers _).bind fun acc => ?_
  obtain ⟨result, blocked⟩ := acc
  dsimp only
  split
  · exact trivial
  · exact hkeys.bind fun keys => (hsegments keys).bind fun groups =>
      moves_flushGroups blocked groups result

/-- Every row in a segment goes into its columns. -/
def AllConvertible (disk : Disk) : Prop :=
  ∀ key name rows, (partitionAt key disk).segments.lookup name = some rows →
    ∀ row ∈ rows, convertible key.1 row = true

theorem conversions_ok (op : DiskOp) {disk : Disk} (h : AllConvertible disk) :
    conversions op disk = .ok := by
  unfold conversions
  split
  · next key output =>
    dsimp only
    rw [if_neg]
    simp only [List.any_eq_true, Bool.and_eq_true, not_exists, not_and]
    intro m _ _ name _ row hrow
    cases hname : (partitionAt key disk).segments.lookup name with
    | none =>
      rw [hname] at hrow
      cases hrow
    | some rows =>
      rw [hname] at hrow
      rw [h key name rows hname row hrow]
      decide
  · rfl

/-- **A forced flush where only conversions fail** drains partitions whose rows go into their
columns. -/
theorem runBy_forcedFlush (hdigest : digest.Injective) {disk : Disk}
    (hinv : Each (SpoolInv digest) disk) (hrows : AllConvertible disk) :
    ∃ result disk', (forcedFlush digest).runBy conversions disk = (.ok result, disk') ∧
      result.errors = [] ∧ ∀ key, (partitionAt key disk').segments = ∅ := by
  obtain ⟨result, disk', hrun, herrors, hdrained⟩ := run_forcedFlush hdigest hinv
  refine ⟨result, disk', ?_, herrors, fun key => (hdrained key).2.1⟩
  have hsame := Prog.runBy_eq_runWith (I := AllConvertible) (R := Drains)
    (fun s t hs hst key name rows ht => hs key name rows (hst key name rows ht))
    (fun op s hs => conversions_ok op hs) (p := forcedFlush digest) (moves_flush true true) hrows
  rw [hsame]
  exact hrun

end Flush

/-! ### Committable feeds -/

/-- **A feed that can be committed**: its integers fit, and a forced flush that fails only where a
conversion fails drains every partition, whatever of its rows has been staged. -/
def Committable (feed : Feed) (rows : List Row) : Prop :=
  AllFit feed rows ∧
    ∀ (digest : List String → String) (disk : Disk), digest.Injective →
      Each (SpoolInv digest) disk →
      (∀ key name segment, (partitionAt key disk).segments.lookup name = some segment →
        ∀ row ∈ segment, convertible key.1 row = true ∨
          key.1 = feed ∧ row ∈ rows ∧ Stageable row) →
      ∃ result disk', (forcedFlush digest).runBy conversions disk = (.ok result, disk') ∧
        result.errors = [] ∧ ∀ key, (partitionAt key disk').segments = ∅

/-- **A feed can be committed exactly when its stored timestamps are below `2 ^ 63`.** -/
theorem committable_iff {feed : Feed} (h : parsers pb feed message context = .ok rows) :
    Committable feed rows ↔ Storable feed message := by
  refine ⟨fun hcommittable => (allFit_iff h).mp hcommittable.1, fun hstorable =>
    ⟨(allFit_iff h).mpr hstorable, fun digest disk hdigest hinv hsegments => ?_⟩⟩
  refine runBy_forcedFlush hdigest hinv fun key name segment hname row hrow => ?_
  rcases hsegments key name segment hname row hrow with hrow | ⟨hkey, hrow, hstage⟩
  · exact hrow
  · rw [hkey]
    exact convertible_of_storable h hstorable hrow hstage

/-! ### One vehicle -/

/-- A runtime for messages without enum fields and nested messages. -/
def simpleProtobuf : Protobuf where
  enumName _ i := toString i
  messageToDict _ := .ok (.dict [])

/-- A feed with one vehicle. -/
def vehicleFeed (timestamp : UInt64) : FeedMessage where
  header := { timestamp := some 1767312000 }
  entity := [{ id := .str "v1", vehicle := some { timestamp := some timestamp } }]

/-- The rows of that feed. -/
def vehicleFeedRows (timestamp : UInt64) : List Row :=
  match parseVehiclePositions simpleProtobuf (vehicleFeed timestamp)
    ⟨some "p1", "2026-01-02T00:00:00", "2026-01-02T00:00:01"⟩ with
  | .ok rows => rows
  | .error _ => []

theorem parsers_vehicleFeed (timestamp : UInt64) :
    parsers simpleProtobuf .vehiclepositions (vehicleFeed timestamp)
      ⟨some "p1", "2026-01-02T00:00:00", "2026-01-02T00:00:01"⟩ =
        .ok (vehicleFeedRows timestamp) := rfl

theorem storable_vehicleFeed {timestamp : UInt64} (h : timestamp.toNat < 2 ^ 63) :
    Storable .vehiclepositions (vehicleFeed timestamp) := by
  intro e he _ p hp n hn
  obtain rfl := List.mem_singleton.mp he
  rcases List.mem_cons.mp hp with rfl | hp
  · rw [← Option.some.inj hn]
    decide
  · obtain rfl := List.mem_singleton.mp hp
    rwa [← Option.some.inj hn]

/-- The largest timestamp that fits. -/
theorem committable_largest : Committable .vehiclepositions (vehicleFeedRows (2 ^ 63 - 1)) := by
  exact (committable_iff (parsers_vehicleFeed _)).mpr (storable_vehicleFeed (by decide +kernel))

/-- A poll with that timestamp is staged, and another one after it. -/
def stagedAfter (timestamp : UInt64) : Disk :=
  finished (stageCall sampleKey "batch-b.json.gz" (vehicleFeedRows 1767312030))
    (finished (stageCall sampleKey "batch-a.json.gz" (vehicleFeedRows timestamp)) ∅)

/-- A forced flush. -/
def flushed (disk : Disk) : Except PyError FlushResult × Disk :=
  (forcedFlush sampleDigest).runBy conversions disk

/-- What a flush leaves pending, and how many errors it reports. -/
def flushReport (disk : Disk) : List String × Option ℕ :=
  ((partitionAt sampleKey (flushed disk).2).segments.keys,
    (flushed disk).1.toOption.map fun result => result.errors.length)

/-- **One timestamp above the range**: it does not fit its column, and every flush stops at its
batch and leaves the poll after it uncommitted. -/
theorem not_committable : ¬ Committable .vehiclepositions (vehicleFeedRows (2 ^ 63)) ∧
    flushReport (stagedAfter (2 ^ 63)) = (["batch-b.json.gz", "batch-a.json.gz"], some 1) ∧
    flushReport (flushed (stagedAfter (2 ^ 63))).2 =
      (["batch-b.json.gz", "batch-a.json.gz"], some 1) := by
  refine ⟨fun h => ?_, by decide +kernel, by decide +kernel⟩
  have hfits := h.1 ((vehicleFeedRows (2 ^ 63)).headD []) (by decide +kernel) "vehicle_timestamp"
    (by decide) (2 ^ 63) (by decide +kernel)
  exact absurd hfits (by decide)

end BkkCollector.Storage.FeedFits
