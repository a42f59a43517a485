import Mathlib
import BkkCollector.Realtime.DedupHistory
import BkkCollector.Realtime.GtfsRtParse
import BkkCollector.Storage.ParquetStore

/-! # What alerts compression keeps

The alerts tracker compares the fields of a row that its key and value fields name. Some of the
other columns are functions of these: the names of the enum values, the first translation of a text
and the first period. The rest is compared by nothing.

* `content_of_near`: rows with the same tracked fields differ in the untracked columns only.
* `keepsContent`: no content is lost where these do not change on their own.
* `not_keepsContent`: the speech text of an alert changes, and no row with the new one is written.
-/

namespace BkkCollector.Realtime.AlertsContent

open BkkCollector.Python.Objects BkkCollector.Python.Json BkkCollector.Config
open BkkCollector.Realtime.Dedup BkkCollector.Realtime.DedupFlow
open BkkCollector.Realtime.DedupHistory BkkCollector.Realtime.GtfsRealtime
open BkkCollector.Realtime.GtfsRtParse BkkCollector.Storage.ParquetStore

/-! ### Columns -/

/-- The columns of a poll, which every row of it has. -/
def contextColumns : List String :=
  ["poll_id", "request_started_at", "response_received_at", "fetched_at",
    "feed_header_timestamp", "feed_header_version", "feed_incrementality",
    "feed_incrementality_name"]

/-- The other columns of the alerts table. -/
def contentColumns : List String := (parquetColumns .alerts).filter fun c => c ∉ contextColumns

/-- The columns the tracker compares, as keys or as values. -/
def trackedColumns : List String :=
  ["entity_id", "affected_agency_id", "affected_route_id", "affected_route_type",
    "affected_stop_id", "affected_direction_id", "affected_trip_id", "affected_trip_start_date",
    "affected_trip_start_time", "cause", "effect", "severity_level", "header_text_json",
    "description_text_json", "url_json", "active_periods_json", "communication_periods_json",
    "impact_periods_json", "informed_entities_json", "bkk_start_text_json", "bkk_end_text_json",
    "bkk_modified_time", "bkk_route_details_json"]

/-- The columns that are functions of tracked ones and of `affected_trip_schedule_relationship`. -/
def derivedColumns : List String :=
  ["schema_version", "cause_name", "effect_name", "severity_level_name", "header_text",
    "description_text", "url", "active_period_start", "active_period_end",
    "affected_trip_schedule_relationship_name"]

/-- The columns nothing compares. -/
def untrackedColumns : List String :=
  ["entity_is_deleted", "tts_header_text_json", "tts_description_text_json", "image_json",
    "image_alternative_text_json", "cause_detail_json", "effect_detail_json",
    "affected_trip_route_id", "affected_trip_direction_id",
    "affected_trip_schedule_relationship"]

theorem contentColumns_cases : ∀ c ∈ contentColumns,
    c ∈ trackedColumns ∨ c ∈ derivedColumns ∨ c ∈ untrackedColumns := by decide +kernel

theorem trackedColumns_eq {c : CollectorConfig} {t : ChangeTracker}
    (ht : makeTracker c .alerts = some t) :
    t.args.keyFields ++ t.args.valueFields = trackedColumns := by
  cases ht
  rfl

/-- The same value in each of these columns. -/
def Agree (columns : List String) (r s : Row) : Prop := ∀ c ∈ columns, r.get c = s.get c

/-! ### Values on which equality is equality -/

/-- A value that equals no value of another type. -/
def Exact : Value → Prop
  | .bool _ => False
  | .float _ => False
  | _ => True

theorem Exact.eq_of_key {v w : Value} (hv : Exact v) (hw : Exact w) (h : v.key = w.key) : v = w := by
  cases v <;> cases w <;> simp_all [Exact, Value.key, Value.number]

@[simp] theorem exact_null : Exact .null := trivial

@[simp] theorem exact_int (i : ℤ) : Exact (.int i) := trivial

@[simp] theorem exact_str (s : String) : Exact (.str s) := trivial

@[simp] theorem exact_text (t : Text) : Exact t.value := by cases t <;> exact trivial

@[simp] theorem exact_textValue (t : Option Text) : Exact (textValue t) := by
  cases t with
  | none => exact trivial
  | some t => exact exact_text t

@[simp] theorem exact_orNone (t : Option Text) : Exact (orNone t) := by
  cases t with
  | none => exact trivial
  | some t =>
    show Exact (if t.value.truthy then t.value else .null)
    split
    · exact exact_text t
    · exact trivial

@[simp] theorem exact_int32Value (i : Option Int32) : Exact (int32Value i) := by
  cases i <;> exact trivial

@[simp] theorem exact_uint32Value (i : Option UInt32) : Exact (uint32Value i) := by
  cases i <;> exact trivial

@[simp] theorem exact_uint64Value (i : Option UInt64) : Exact (uint64Value i) := by
  cases i <;> exact trivial

@[simp] theorem exact_enumName (pb : Protobuf) (enum : String) (i : Option Int32) :
    Exact (enumName pb enum i) := by
  cases i <;> exact trivial

theorem exact_jsonColumn {α : Type} {item : α → Except PyError JsonValue} {items : List α}
    {v : Value} (h : jsonColumn item items = .ok v) : Exact v := by
  simp only [jsonColumn, bind_eq_ok, pure_eq_ok] at h
  obtain ⟨values, -, rfl⟩ := h
  exact trivial

theorem exact_messageJson {pb : Protobuf} {m : Option Message} {v : Value}
    (h : messageJson pb m = .ok v) : Exact v := by
  cases m with
  | none =>
    cases h
    exact trivial
  | some m =>
    simp only [messageJson, bind_eq_ok, pure_eq_ok] at h
    obtain ⟨value, -, rfl⟩ := h
    exact trivial

/-- A row of such values, but for its flag. -/
def ExactRow (row : Row) : Prop := ∀ p ∈ row, p.1 ≠ "entity_is_deleted" → Exact p.2

theorem ExactRow.append {r s : Row} (hr : ExactRow r) (hs : ExactRow s) : ExactRow (r ++ s) :=
  fun p hp => (List.mem_append.mp hp).elim (hr p) (hs p)

theorem mem_of_lookup {row : Row} {c : String} {v : Value} (h : row.lookup c = some v) :
    (c, v) ∈ row := by
  induction row with
  | nil => cases h
  | cons p row ih =>
    rw [List.lookup_cons] at h
    split at h
    · next heq =>
      cases h
      rw [beq_iff_eq] at heq
      rw [heq]
      exact List.mem_cons_self
    · exact List.mem_cons_of_mem _ (ih h)

theorem ExactRow.get {row : Row} (h : ExactRow row) {c : String} (hc : c ≠ "entity_is_deleted") :
    Exact (row.get c) := by
  unfold Row.get
  cases hl : row.lookup c with
  | none => exact trivial
  | some v => exact h _ (mem_of_lookup hl) hc

/-! ### JSON columns -/

theorem scalarJson_inj {v w : Value} {j : JsonValue} (hv : scalarJson v = .ok j)
    (hw : scalarJson w = .ok j) : v = w := by
  cases v <;> cases hv <;> cases w <;> cases hw <;> rfl

theorem sortKeys_scalarJson {v : Value} {j : JsonValue} (h : scalarJson v = .ok j) :
    sortKeys j = j := by
  cases v <;> cases h <;> rw [sortKeys] <;> simp

/-- The text of a dictionary with two members determines both. -/
theorem rowJson_pair {k l : String} {v w v' w' : Value} {j j' : JsonValue}
    (h : rowJson [(k, v), (l, w)] = .ok j) (h' : rowJson [(k, v'), (l, w')] = .ok j')
    (hsort : sortKeys j = sortKeys j') : v = v' ∧ w = w' := by
  simp only [rowJson, membersJson, bind_eq_ok, pure_eq_ok, Except.ok.injEq] at h h'
  obtain ⟨_, ⟨x, hx, _, ⟨y, hy, _, rfl, rfl⟩, rfl⟩, rfl⟩ := h
  obtain ⟨_, ⟨x', hx', _, ⟨y', hy', _, rfl, rfl⟩, rfl⟩, rfl⟩ := h'
  simp only [sortKeys, sortMembers, sortKeys_scalarJson hx, sortKeys_scalarJson hy,
    sortKeys_scalarJson hx', sortKeys_scalarJson hy', JsonValue.dict.injEq] at hsort
  by_cases hkl : k ≤ l
  · simp only [List.insertionSort_cons, List.insertionSort_nil, List.orderedInsert, hkl, if_true,
      List.cons.injEq, Prod.mk.injEq] at hsort
    obtain ⟨⟨-, rfl⟩, ⟨-, rfl⟩, -⟩ := hsort
    exact ⟨scalarJson_inj hx hx', scalarJson_inj hy hy'⟩
  · simp only [List.insertionSort_cons, List.insertionSort_nil, List.orderedInsert, hkl, if_false,
      List.cons.injEq, Prod.mk.injEq] at hsort
    obtain ⟨⟨-, rfl⟩, ⟨-, rfl⟩, -⟩ := hsort
    exact ⟨scalarJson_inj hx hx', scalarJson_inj hy hy'⟩

/-- Lists of dictionaries with the same text: both are empty, or their first items have the same
text. -/
theorem jsonColumn_head {rows rows' : List Row} {v : Value} (h : jsonColumn rowJson rows = .ok v)
    (h' : jsonColumn rowJson rows' = .ok v) :
    (rows = [] ∧ rows' = []) ∨ ∃ r rs r' rs' j j', rows = r :: rs ∧ rows' = r' :: rs' ∧
      rowJson r = .ok j ∧ rowJson r' = .ok j' ∧ sortKeys j = sortKeys j' := by
  simp only [jsonColumn, bind_eq_ok, pure_eq_ok] at h h'
  obtain ⟨values, hvalues, rfl⟩ := h
  obtain ⟨values', hvalues', htext⟩ := h'
  have hitems : sortItems values' = sortItems values := by
    simpa only [sortKeys, JsonValue.list.injEq] using dumps_inj (Value.str.inj htext)
  cases rows with
  | nil =>
    cases hvalues
    cases rows' with
    | nil => exact Or.inl ⟨rfl, rfl⟩
    | cons r' rs' =>
      simp only [listJson, bind_eq_ok, pure_eq_ok] at hvalues'
      obtain ⟨j', -, js', -, rfl⟩ := hvalues'
      simp [sortItems] at hitems
  | cons r rs =>
    simp only [listJson, bind_eq_ok, pure_eq_ok] at hvalues
    obtain ⟨j, hj, js, -, rfl⟩ := hvalues
    cases rows' with
    | nil =>
      cases hvalues'
      simp [sortItems] at hitems
    | cons r' rs' =>
      simp only [listJson, bind_eq_ok, pure_eq_ok] at hvalues'
      obtain ⟨j', hj', js', -, rfl⟩ := hvalues'
      simp only [sortItems, List.cons.injEq] at hitems
      exact Or.inr ⟨r, rs, r', rs', j, j', rfl, rfl, hj, hj', hitems.1.symm⟩

/-- The first translation, from the text of all of them. -/
theorem firstTranslation_eq {x y : Option TranslatedString} {v : Value}
    (hx : translationsJson x = .ok v) (hy : translationsJson y = .ok v) :
    firstTranslation x = firstTranslation y := by
  have hrows : ∀ z : Option TranslatedString, ∀ row ∈ translations z,
      ∃ t, row = translationRow t := by
    intro z row hrow
    cases z with
    | none => cases hrow
    | some z =>
      obtain ⟨t, -, rfl⟩ := List.mem_map.mp hrow
      exact ⟨t, rfl⟩
  unfold firstTranslation
  rcases jsonColumn_head hx hy with ⟨h, h'⟩ | ⟨r, rs, r', rs', j, j', h, h', hj, hj', hsort⟩
  · rw [h, h']
  · obtain ⟨t, rfl⟩ := hrows x r (by rw [h]; exact List.mem_cons_self)
    obtain ⟨t', rfl⟩ := hrows y r' (by rw [h']; exact List.mem_cons_self)
    rw [h, h']
    exact (rowJson_pair hj hj' hsort).1

/-- The first period, from the text of all of them. -/
theorem firstPeriod_eq {x y : List TimeRange} {v : Value}
    (hx : jsonColumn rowJson (x.map period) = .ok v)
    (hy : jsonColumn rowJson (y.map period) = .ok v) :
    firstPeriod "start" x = firstPeriod "start" y ∧ firstPeriod "end" x = firstPeriod "end" y := by
  rcases jsonColumn_head hx hy with ⟨h, h'⟩ | ⟨r, rs, r', rs', j, j', h, h', hj, hj', hsort⟩
  · rw [List.map_eq_nil_iff] at h h'
    rw [h, h']
    exact ⟨rfl, rfl⟩
  · obtain ⟨p, ps, rfl, rfl, -⟩ := List.map_eq_cons_iff.mp h
    obtain ⟨q, qs, rfl, rfl, -⟩ := List.map_eq_cons_iff.mp h'
    exact rowJson_pair hj hj' hsort

theorem int32Value_inj {i j : Option Int32} (h : int32Value i = int32Value j) : i = j := by
  cases i with
  | none => cases j <;> simp_all [int32Value]
  | some i =>
    cases j with
    | none => simp [int32Value] at h
    | some j => rw [Int32.toInt_inj.mp (Value.int.inj h)]

/-! ### The rows of a feed -/

/-- A row of an alert: where its derived columns come from. -/
structure AlertRow (pb : Protobuf) (row : Row) (alert : Alert) (relation : Option Int32) :
    Prop where
  exact : ExactRow row
  version : row.get "schema_version" = .int schemaVersion
  cause : row.get "cause" = int32Value alert.cause
  causeName : row.get "cause_name" = enumName pb "cause" alert.cause
  effect : row.get "effect" = int32Value alert.effect
  effectName : row.get "effect_name" = enumName pb "effect" alert.effect
  severity : row.get "severity_level" = int32Value alert.severityLevel
  severityName : row.get "severity_level_name" = enumName pb "severity_level" alert.severityLevel
  headerJson : translationsJson alert.headerText = .ok (row.get "header_text_json")
  header : row.get "header_text" = firstTranslation alert.headerText
  descriptionJson : translationsJson alert.descriptionText = .ok (row.get "description_text_json")
  description : row.get "description_text" = firstTranslation alert.descriptionText
  urlJson : translationsJson alert.url = .ok (row.get "url_json")
  url : row.get "url" = firstTranslation alert.url
  periodsJson : jsonColumn rowJson (alert.activePeriod.map period) =
    .ok (row.get "active_periods_json")
  periodStart : row.get "active_period_start" = firstPeriod "start" alert.activePeriod
  periodEnd : row.get "active_period_end" = firstPeriod "end" alert.activePeriod
  trip : row.get "affected_trip_schedule_relationship" = int32Value relation
  tripName : row.get "affected_trip_schedule_relationship_name" =
    enumName pb "schedule_relationship" relation

/-- A row of a deletion: everything else is missing. -/
structure DeletionRow (row : Row) : Prop where
  exact : ExactRow row
  version : row.get "schema_version" = .int schemaVersion
  missing : ∀ c ∈ derivedColumns ++ trackedColumns, c ≠ "schema_version" → c ≠ "entity_id" →
    row.get c = .null

variable {pb : Protobuf}

theorem exactRow_poll (feed : FeedMessage) (context : PollContext) (entity : FeedEntity) :
    ExactRow (pollContext pb feed context ++ entityContext entity) := by
  have hid : Exact ((context.pollId.map Value.str).getD .null) := by
    cases context.pollId <;> exact trivial
  simp [ExactRow, pollContext, entityContext, hid]

theorem deletionRow_spec {feed : FeedMessage} {context : PollContext} {entity : FeedEntity}
    {row : Row} (h : row ∈ deletionRow (pollContext pb feed context) entity) : DeletionRow row := by
  unfold deletionRow at h
  split at h
  · obtain rfl := List.mem_singleton.mp h
    refine ⟨exactRow_poll feed context entity, rfl, ?_⟩
    simp only [derivedColumns, trackedColumns, List.cons_append, List.nil_append,
      List.forall_mem_cons]
    simp [Row.get, pollContext, entityContext, List.lookup]
  · cases h

theorem tripDesc_spec {trip : Option TripDescriptor} {row : Row} (h : tripDesc pb trip = .ok row) :
    ExactRow row ∧ ∃ relation, row.get "schedule_relationship" = int32Value relation ∧
      row.get "schedule_relationship_name" = enumName pb "schedule_relationship" relation := by
  cases trip with
  | none =>
    cases h
    exact ⟨by simp [ExactRow, emptyTrip], none, rfl, rfl⟩
  | some trip =>
    simp only [tripDesc, bind_eq_ok, pure_eq_ok] at h
    obtain ⟨modified, hmodified, rfl⟩ := h
    exact ⟨by simp [ExactRow, exact_messageJson hmodified], trip.scheduleRelationship, rfl, rfl⟩

theorem selectors_spec {informed : List EntitySelector} {values : List Selector}
    (h : selectors pb informed = .ok values) :
    ∀ s ∈ values, ExactRow s.fields ∧ ∃ trip, tripDesc pb trip = .ok s.trip := by
  induction informed generalizing values with
  | nil =>
    cases h
    simp
  | cons e informed ih =>
    simp only [selectors, selector, bind_eq_ok, pure_eq_ok] at h
    obtain ⟨_, ⟨trip, htrip, rfl⟩, rest, hrest, rfl⟩ := h
    rw [List.forall_mem_cons]
    exact ⟨⟨by simp [ExactRow], e.trip, htrip⟩, ih hrest⟩

/-- The columns of a selector, or of none. -/
theorem affected_spec {informed : List EntitySelector} {values : List Selector}
    (h : selectors pb informed = .ok values) {value : Option Selector}
    (hvalue : value ∈ orNoSelector values) :
    ExactRow (affected value) ∧ ∃ relation,
      (affected value).get "affected_trip_schedule_relationship" = int32Value relation ∧
      (affected value).get "affected_trip_schedule_relationship_name" =
        enumName pb "schedule_relationship" relation := by
  have hexact : ∀ fields trip : Row, ExactRow fields → ExactRow trip →
      ∀ c d : String, c ≠ "entity_is_deleted" → d ≠ "entity_is_deleted" →
        Exact (fields.get c) ∧ Exact (trip.get d) := fun fields trip hf ht c d hc hd =>
    ⟨hf.get hc, ht.get hd⟩
  unfold orNoSelector at hvalue
  split at hvalue
  · obtain rfl := List.mem_singleton.mp hvalue
    exact ⟨by simp [ExactRow, affected, Row.get, emptyTrip, List.lookup], none, rfl, rfl⟩
  · obtain ⟨s, hs, rfl⟩ := List.mem_map.mp hvalue
    obtain ⟨hfields, trip, htrip⟩ := selectors_spec h s hs
    obtain ⟨hexactTrip, relation, hrelation, hname⟩ := tripDesc_spec htrip
    refine ⟨?_, relation, hrelation, hname⟩
    simp only [ExactRow, affected, Option.map_some, Option.getD_some, List.forall_mem_cons]
    simp [hfields.get, hexactTrip.get]

theorem realcityAlert_spec {a : Option RealcityAlert} {row : Row}
    (h : realcityAlert pb a = .ok row) :
    ExactRow row ∧ ∃ s e m r, row = [("bkk_start_text_json", s), ("bkk_end_text_json", e),
      ("bkk_modified_time", m), ("bkk_route_details_json", r)] := by
  cases a with
  | none =>
    cases h
    exact ⟨by simp [ExactRow], _, _, _, _, rfl⟩
  | some a =>
    simp only [realcityAlert, bind_eq_ok, pure_eq_ok] at h
    obtain ⟨s, hs, e, he, r, hr, rfl⟩ := h
    exact ⟨by simp [ExactRow, exact_jsonColumn hs, exact_jsonColumn he,
      exact_jsonColumn hr], _, _, _, _, rfl⟩

theorem exact_firstTranslation (x : Option TranslatedString) : Exact (firstTranslation x) := by
  rcases x with _ | ⟨_ | ⟨t, ts⟩⟩
  · exact trivial
  · exact trivial
  · exact exact_text t.text

theorem exact_firstPeriod {field : String} (hfield : field = "start" ∨ field = "end")
    (periods : List TimeRange) : Exact (firstPeriod field periods) := by
  cases periods with
  | nil => exact trivial
  | cons p periods =>
    rcases hfield with rfl | rfl
    · exact exact_uint64Value p.start
    · exact exact_uint64Value p.stop

/-- **The rows of an alert.** -/
theorem alertRows_spec {feed : FeedMessage} {context : PollContext} {entity : FeedEntity}
    {alert : Alert} {rows : List Row}
    (h : alertRows pb (pollContext pb feed context) entity alert = .ok rows) {row : Row}
    (hrow : row ∈ rows) : ∃ relation, AlertRow pb row alert relation := by
  simp only [alertRows, alertBase, bind_eq_ok, pure_eq_ok] at h
  obtain ⟨values, hvalues, base, ⟨headerText, hheader, descriptionText, hdescription, url, hurl,
    ttsHeader, httsHeader, ttsDescription, httsDescription, image, himage, alternative,
    halternative, causeDetail, hcause, effectDetail, heffect, active, hactive, communication,
    hcommunication, impact, himpact, informed, hinformed, realcity, hrealcity, rfl⟩, rfl⟩ := h
  obtain ⟨value, hvalue, rfl⟩ := List.mem_map.mp hrow
  obtain ⟨haffected, relation, hrelation, hname⟩ := affected_spec hvalues hvalue
  obtain ⟨hexact, s, e, m, r, rfl⟩ := realcityAlert_spec hrealcity
  have hcolumns : ExactRow
      [("cause", int32Value alert.cause), ("cause_name", enumName pb "cause" alert.cause),
        ("effect", int32Value alert.effect), ("effect_name", enumName pb "effect" alert.effect),
        ("severity_level", int32Value alert.severityLevel),
        ("severity_level_name", enumName pb "severity_level" alert.severityLevel),
        ("header_text", firstTranslation alert.headerText),
        ("description_text", firstTranslation alert.descriptionText),
        ("url", firstTranslation alert.url), ("header_text_json", headerText),
        ("description_text_json", descriptionText), ("url_json", url),
        ("tts_header_text_json", ttsHeader), ("tts_description_text_json", ttsDescription),
        ("image_json", image), ("image_alternative_text_json", alternative),
        ("cause_detail_json", causeDetail), ("effect_detail_json", effectDetail),
        ("active_period_start", firstPeriod "start" alert.activePeriod),
        ("active_period_end", firstPeriod "end" alert.activePeriod),
        ("active_periods_json", active), ("communication_periods_json", communication),
        ("impact_periods_json", impact), ("informed_entities_json", informed)] := by
    simp [ExactRow, exact_firstTranslation, exact_firstPeriod, exact_jsonColumn hheader,
      exact_jsonColumn hdescription, exact_jsonColumn hurl, exact_jsonColumn httsHeader,
      exact_jsonColumn httsDescription, exact_messageJson himage, exact_jsonColumn halternative,
      exact_messageJson hcause, exact_messageJson heffect, exact_jsonColumn hactive,
      exact_jsonColumn hcommunication, exact_jsonColumn himpact, exact_jsonColumn hinformed]
  exact ⟨relation,
    { exact := (((exactRow_poll feed context entity).append hcolumns).append hexact).append
        haffected
      version := rfl
      cause := rfl
      causeName := rfl
      effect := rfl
      effectName := rfl
      severity := rfl
      severityName := rfl
      headerJson := hheader
      header := rfl
      descriptionJson := hdescription
      description := rfl
      urlJson := hurl
      url := rfl
      periodsJson := hactive
      periodStart := rfl
      periodEnd := rfl
      trip := hrelation
      tripName := hname }⟩

theorem mem_forEntities {item : FeedEntity → Except PyError (List Row)} {entities : List FeedEntity}
    {rows : List Row} (h : forEntities item entities = .ok rows) {row : Row} (hrow : row ∈ rows) :
    ∃ entity ∈ entities, ∃ own, item entity = .ok own ∧ row ∈ own := by
  induction entities generalizing rows with
  | nil =>
    cases h
    cases hrow
  | cons entity entities ih =>
    simp only [forEntities, bind_eq_ok, pure_eq_ok] at h
    obtain ⟨own, hown, rest, hrest, rfl⟩ := h
    rcases List.mem_append.mp hrow with hrow | hrow
    · exact ⟨entity, List.mem_cons_self, own, hown, hrow⟩
    · obtain ⟨e, he, h⟩ := ih hrest hrow
      exact ⟨e, List.mem_cons_of_mem _ he, h⟩

/-- A row `parse_alerts` can return. -/
def ParsedRow (pb : Protobuf) (row : Row) : Prop :=
  DeletionRow row ∨ ∃ alert relation, AlertRow pb row alert relation

theorem parseAlerts_spec {feed : FeedMessage} {context : PollContext} {rows : List Row}
    (h : parseAlerts pb feed context = .ok rows) : ∀ row ∈ rows, ParsedRow pb row := by
  intro row hrow
  obtain ⟨entity, -, own, hown, hrow⟩ := mem_forEntities h hrow
  cases halert : entity.alert with
  | none =>
    rw [halert] at hown
    cases hown
    exact Or.inl (deletionRow_spec hrow)
  | some alert =>
    rw [halert] at hown
    obtain ⟨relation, hspec⟩ := alertRows_spec hown hrow
    exact Or.inr ⟨alert, relation, hspec⟩

/-! ### Rows with the same tracked columns -/

theorem ParsedRow.exact {row : Row} (h : ParsedRow pb row) : ExactRow row := by
  rcases h with h | ⟨_, _, h⟩
  · exact h.exact
  · exact h.exact

/-- What the tracker takes for equal is equal. -/
theorem agree_of_near {c : CollectorConfig} {t : ChangeTracker}
    (ht : makeTracker c .alerts = some t) {r s : Row} (hr : ParsedRow pb r) (hs : ParsedRow pb s)
    (hkey : t.args.keyOf r = t.args.keyOf s) (hnear : Near t.args r s) :
    Agree trackedColumns r s := by
  have hkeys : ∀ f ∈ t.args.keyFields, (r.get f).key = (s.get f).key :=
    List.map_inj_left.mp hkey
  intro f hf
  have hdeleted : ∀ f ∈ trackedColumns, f ≠ "entity_is_deleted" := by decide
  refine Exact.eq_of_key (hr.exact.get (hdeleted f hf)) (hs.exact.get (hdeleted f hf)) ?_
  rw [← trackedColumns_eq ht, List.mem_append] at hf
  exact hf.elim (hkeys f) (hnear.exact f)

/-- The derived columns of two alerts with the same tracked ones. -/
theorem derived_of_alerts {r s : Row} {x y : Alert} {i j : Option Int32}
    (hr : AlertRow pb r x i) (hs : AlertRow pb s y j) (htracked : Agree trackedColumns r s)
    (huntracked : Agree untrackedColumns r s) : Agree derivedColumns r s := by
  have hcause : x.cause = y.cause := int32Value_inj (by
    rw [← hr.cause, ← hs.cause]
    exact htracked _ (by decide))
  have heffect : x.effect = y.effect := int32Value_inj (by
    rw [← hr.effect, ← hs.effect]
    exact htracked _ (by decide))
  have hseverity : x.severityLevel = y.severityLevel := int32Value_inj (by
    rw [← hr.severity, ← hs.severity]
    exact htracked _ (by decide))
  have hrelation : i = j := int32Value_inj (by
    rw [← hr.trip, ← hs.trip]
    exact huntracked _ (by decide))
  have hheader := firstTranslation_eq hr.headerJson
    (by rw [htracked "header_text_json" (by decide)]; exact hs.headerJson)
  have hdescription := firstTranslation_eq hr.descriptionJson
    (by rw [htracked "description_text_json" (by decide)]; exact hs.descriptionJson)
  have hurl := firstTranslation_eq hr.urlJson
    (by rw [htracked "url_json" (by decide)]; exact hs.urlJson)
  obtain ⟨hstart, hend⟩ := firstPeriod_eq hr.periodsJson
    (by rw [htracked "active_periods_json" (by decide)]; exact hs.periodsJson)
  simp only [Agree, derivedColumns, List.forall_mem_cons]
  refine ⟨?_, ?_, ?_, ?_, ?_, ?_, ?_, ?_, ?_, ?_, fun c hc => by cases hc⟩
  · rw [hr.version, hs.version]
  · rw [hr.causeName, hs.causeName, hcause]
  · rw [hr.effectName, hs.effectName, heffect]
  · rw [hr.severityName, hs.severityName, hseverity]
  · rw [hr.header, hs.header, hheader]
  · rw [hr.description, hs.description, hdescription]
  · rw [hr.url, hs.url, hurl]
  · rw [hr.periodStart, hs.periodStart, hstart]
  · rw [hr.periodEnd, hs.periodEnd, hend]
  · rw [hr.tripName, hs.tripName, hrelation]

theorem derived_of_deletions {r s : Row} (hr : DeletionRow r) (hs : DeletionRow s) :
    Agree derivedColumns r s := by
  intro c hc
  have hne : ∀ c ∈ derivedColumns, c ≠ "entity_id" := by decide
  by_cases hversion : c = "schema_version"
  · rw [hversion, hr.version, hs.version]
  · rw [hr.missing c (List.mem_append_left _ hc) hversion (hne c hc),
      hs.missing c (List.mem_append_left _ hc) hversion (hne c hc)]

/-- A deletion and an alert differ in the texts. -/
theorem not_agree_of_deletion {r s : Row} (hr : DeletionRow r) {alert : Alert}
    {relation : Option Int32} (hs : AlertRow pb s alert relation) :
    r.get "header_text_json" ≠ s.get "header_text_json" := by
  have hnull : r.get "header_text_json" = .null :=
    hr.missing _ (by decide) (by decide) (by decide)
  have hjson := hs.headerJson
  simp only [translationsJson, jsonColumn, bind_eq_ok, pure_eq_ok] at hjson
  obtain ⟨values, -, htext⟩ := hjson
  rw [hnull, ← htext]
  exact Value.noConfusion

/-- **Rows with the same tracked and the same untracked columns** have the same content. -/
theorem content_of_agree {r s : Row} (hr : ParsedRow pb r) (hs : ParsedRow pb s)
    (htracked : Agree trackedColumns r s) (huntracked : Agree untrackedColumns r s) :
    Agree contentColumns r s := by
  have hderived : Agree derivedColumns r s := by
    rcases hr with hr | ⟨x, i, hr⟩
    · rcases hs with hs | ⟨y, j, hs⟩
      · exact derived_of_deletions hr hs
      · exact absurd (htracked _ (by decide)) (not_agree_of_deletion hr hs)
    · rcases hs with hs | ⟨y, j, hs⟩
      · exact absurd (htracked _ (by decide)).symm (not_agree_of_deletion hs hr)
      · exact derived_of_alerts hr hs htracked huntracked
  intro c hc
  rcases contentColumns_cases c hc with h | h | h
  · exact htracked c h
  · exact hderived c h
  · exact huntracked c h

/-! ### Runs -/

/-- A poll of rows `parse_alerts` returned. -/
def ParsedPoll (pb : Protobuf) (p : Poll) : Prop :=
  ∃ feed context, parseAlerts pb feed context = .ok p.rows

/-- What was written in a run of parsed polls was parsed. -/
theorem parsed_of_staged {w : Live} {polls : List Poll} (hpolls : ∀ p ∈ polls, ParsedPoll pb p)
    (hw : ∀ s ∈ w.staged, ParsedRow pb s.row) :
    ∀ s ∈ (polls.foldl Live.poll w).staged, ParsedRow pb s.row := by
  induction polls generalizing w with
  | nil => exact hw
  | cons p polls ih =>
    obtain ⟨hp, hpolls⟩ := List.forall_mem_cons.mp hpolls
    refine ih hpolls fun s hs => ?_
    rcases List.mem_append.mp hs with hs | hs
    · exact hw s hs
    obtain ⟨feed, context, hparse⟩ := hp
    rcases track_cases w p with ⟨e, h⟩ | ⟨out, hf, ⟨e, h⟩ | ⟨path, h⟩⟩
    · simp [h] at hs
    · simp [h] at hs
    · rw [h] at hs
      obtain ⟨row, hrow, rfl⟩ := List.mem_map.mp hs
      obtain ⟨overlay, hselect⟩ := select_of_filter hf
      obtain ⟨ds, -, hrows, hpassed⟩ := decisions_of_select hselect
      refine parseAlerts_spec hparse row ?_
      rw [← hpassed] at hrow
      obtain ⟨d, hd, rfl⟩ := List.mem_map.mp hrow
      rw [← hrows]
      exact List.mem_map_of_mem (List.mem_of_mem_filter hd)

/-- **No content is lost** in a poll: a row that is not emitted has the content of one written
before it, in an earlier poll of the date or earlier in the same one. -/
def KeepsContent (w : Live) (p : Poll) : Prop :=
  ∃ ds, Live.decide w p = .ok ds ∧ ds.map Prod.fst = p.rows ∧
    passed ds = (w.track p).emittedRows ∧
    ∀ before row after, ds = before ++ (row, false) :: after →
      ∃ v ∈ writtenBefore w p before, Agree contentColumns row v.1

/-- A row with the tracked columns of the row last written under its key, less than a heartbeat
ago, has its untracked columns too. -/
def NothingElseChanges (w : Live) (p : Poll) : Prop :=
  ∀ before row write after, Live.decide w p = .ok (before ++ (row, write) :: after) →
    ∀ v, lastUnder w.tracker.args (writtenBefore w p before) (w.tracker.args.keyOf row) = some v →
      p.nowTs - v.2 < w.tracker.args.heartbeatSeconds → Agree trackedColumns row v.1 →
      Agree untrackedColumns row v.1

/-- **Alerts compression loses no content** where no untracked column changes on its own. -/
theorem keepsContent (pb : Protobuf) (c : CollectorConfig) (t : ChangeTracker)
    (ht : makeTracker c .alerts = some t) (polls : List Poll) (p : Poll)
    (hpolls : ∀ q ∈ polls, ParsedPoll pb q) (hp : ParsedPoll pb p)
    (hok : Tracked.succeeded ((polls.foldl Live.poll { tracker := t }).track p))
    (hsame : NothingElseChanges (polls.foldl Live.poll { tracker := t }) p) :
    KeepsContent (polls.foldl Live.poll { tracker := t }) p := by
  set w := polls.foldl Live.poll { tracker := t } with hw
  have hargs : w.tracker.args = t.args := foldl_args { tracker := t } polls
  have hlast : RemembersLast w := remembersLast_foldl (remembersLast_start ht) polls
  have hstaged : ∀ s ∈ w.staged, ParsedRow pb s.row :=
    parsed_of_staged hpolls fun s hs => by cases hs
  obtain ⟨feed, context, hparse⟩ := hp
  have hrows := parseAlerts_spec hparse
  obtain ⟨ds, hds, hfst, hpassed⟩ := emittedRows_eq hok
  refine ⟨ds, hds, hfst, hpassed, fun before row after hsplit => ?_⟩
  rw [hsplit] at hds
  obtain ⟨v, hv, hnear, hfresh⟩ := suppressed_repeats hlast hds
  obtain ⟨hmem, hkey⟩ := mem_of_lastUnder hv
  have hmemRows : ∀ d ∈ ds, d.1 ∈ p.rows := fun d hd => hfst ▸ List.mem_map_of_mem hd
  have hrow : ParsedRow pb row := hrows row (hmemRows (row, false) (by simp [hsplit]))
  have hwritten : ParsedRow pb v.1 := by
    rcases List.mem_append.mp hmem with h | h
    · obtain ⟨s, hs, rfl⟩ := List.mem_map.mp h
      exact hstaged s (List.mem_of_mem_filter hs)
    · obtain ⟨r, hr, rfl⟩ := List.mem_map.mp h
      obtain ⟨d, hd, rfl⟩ := List.mem_map.mp hr
      refine hrows d.1 (hmemRows d ?_)
      rw [hsplit]
      exact List.mem_append_left _ (List.mem_of_mem_filter hd)
  have htracked : Agree trackedColumns row v.1 := by
    rw [hargs] at hkey hnear
    exact agree_of_near ht hrow hwritten hkey.symm hnear
  exact ⟨v, hmem, content_of_agree hrow hwritten htracked
    (hsame before row false after hds v hv hfresh htracked)⟩

/-! ### Two polls of one alert -/

/-- A runtime for messages without enum fields and nested messages. -/
def plainProtobuf : Protobuf where
  enumName _ i := toString i
  messageToDict _ := .ok (.dict [])

/-- A text in one language. -/
def plainText (s : String) : TranslatedString := ⟨[⟨.str s, none⟩]⟩

/-- A feed with one alert, which says `spoken`. -/
def alertFeed (spoken : String) : FeedMessage where
  header := { timestamp := some 1767225600 }
  entity := [
    { id := .str "A1"
      alert := some
        { headerText := some (plainText "Delays"), ttsHeaderText := some (plainText spoken) } }]

/-- The context of a poll. -/
def pollAt (id : String) : PollContext := ⟨some id, "2026-01-01T00:00:00", "2026-01-01T00:00:01"⟩

/-- The rows of that feed. -/
def alertFeedRows (spoken id : String) : List Row :=
  match parseAlerts plainProtobuf (alertFeed spoken) (pollAt id) with
  | .ok rows => rows
  | .error _ => []

/-- A poll of that feed. -/
def alertPoll (spoken id : String) (nowTs : ℚ) (spool : Except PyError (Option String)) : Poll :=
  ⟨alertFeedRows spoken id, "2026-01-01", nowTs, spool⟩

theorem parsed_alertPoll (spoken id : String) (nowTs : ℚ)
    (spool : Except PyError (Option String)) :
    ParsedPoll plainProtobuf (alertPoll spoken id nowTs spool) :=
  ⟨alertFeed spoken, pollAt id, rfl⟩

/-- The alerts tracker with the default settings. -/
def alertTracker : ChangeTracker := (makeTracker defaultConfig .alerts).get rfl

/-- The tracker after a first poll. -/
def afterFirst : Live :=
  Live.poll { tracker := alertTracker } (alertPoll "Delays" "p1" 1000 (.ok (some "batch-1")))

/-- The poll after it. -/
def secondPoll (spoken : String) : Poll := alertPoll spoken "p2" 1030 (.ok none)

/-- What is said in the second poll decides nothing: its row is passed over. -/
theorem decide_second :
    (∀ spoken ∈ ["Delays", "Closed"], Live.decide afterFirst (secondPoll spoken) =
      .ok [((alertFeedRows spoken "p2").headD [], false)]) ∧
    stagedHistory afterFirst.staged "2026-01-01" =
      [((alertFeedRows "Delays" "p1").headD [], 1000)] := by decide +kernel

/-- The second poll succeeds. -/
theorem track_second : ∀ spoken ∈ ["Delays", "Closed"],
    (afterFirst.track (secondPoll spoken)).emittedRows = [] ∧
      (afterFirst.track (secondPoll spoken)).changeTracking = .ok () ∧
      (afterFirst.track (secondPoll spoken)).spool = .ok none := by decide +kernel

/-- The same alert again: its row is not emitted, and the first one has its content. -/
theorem keepsContent_again :
    (afterFirst.track (secondPoll "Delays")).emittedRows = [] ∧
      KeepsContent afterFirst (secondPoll "Delays") := by
  obtain ⟨hdecide, hhistory⟩ := decide_second
  obtain ⟨hemitted, htracking, hspool⟩ := track_second "Delays" (by decide)
  refine ⟨hemitted, ?_⟩
  refine keepsContent plainProtobuf defaultConfig alertTracker rfl
    [alertPoll "Delays" "p1" 1000 (.ok (some "batch-1"))] _
    (fun q hq => List.mem_singleton.mp hq ▸ parsed_alertPoll _ _ _ _) (parsed_alertPoll _ _ _ _)
    ⟨htracking, none, hspool⟩ fun before row write after hds v hv _ _ => ?_
  have hsplit := (Except.ok.inj (hds.symm.trans (hdecide "Delays" (by decide)))).symm
  rcases before with _ | ⟨d, before⟩
  · obtain ⟨hrow, -⟩ := List.cons.inj hsplit
    obtain ⟨rfl, rfl⟩ := Prod.mk.inj hrow
    have hmem : v ∈ stagedHistory afterFirst.staged "2026-01-01" ++ [] := (mem_of_lastUnder hv).1
    rw [List.append_nil, hhistory, List.mem_singleton] at hmem
    subst hmem
    show ∀ c ∈ untrackedColumns, _
    decide +kernel
  · have hlength := congrArg List.length hsplit
    simp at hlength

/-- **The speech text of an alert changes**: both polls succeed, and the row with the new text is
written nowhere. -/
theorem not_keepsContent :
    Tracked.succeeded (afterFirst.track (secondPoll "Closed")) ∧
      ¬ KeepsContent afterFirst (secondPoll "Closed") := by
  obtain ⟨hdecide, hhistory⟩ := decide_second
  obtain ⟨-, htracking, hspool⟩ := track_second "Closed" (by decide)
  refine ⟨⟨htracking, none, hspool⟩, ?_⟩
  rintro ⟨ds, hds, -, -, hkeeps⟩
  obtain rfl := Except.ok.inj (hds.symm.trans (hdecide "Closed" (by decide)))
  obtain ⟨v, hv, hagree⟩ := hkeeps [] _ [] rfl
  have hmem : v ∈ stagedHistory afterFirst.staged "2026-01-01" ++ [] := hv
  rw [List.append_nil, hhistory, List.mem_singleton] at hmem
  subst hmem
  exact absurd (hagree "tts_header_text_json" (by decide +kernel)) (by decide +kernel)

end BkkCollector.Realtime.AlertsContent
