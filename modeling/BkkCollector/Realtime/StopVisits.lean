import BkkCollector.Python.Text
import BkkCollector.Realtime.GtfsRtParse
import BkkCollector.Realtime.PresenceReplay

/-! # Stop visits

A stop visit is known by the sequence number of its stop, or by its ordinal where the message omits
the number. The rows of a TripUpdates feed are its visits, one row each, and a row for every entity
without stops; the identities of the rows are distinct where those of the entities and the explicit
sequence numbers are.

* `rows_spec`: the rows are those of the entries of the feed, in order.
* `identities_nodup`: the identities of the entries.
* `stopVisits_distinct_counted`: the keys of the rows, and what an observation counts.
-/

namespace BkkCollector.Realtime.StopVisits

open BkkCollector.Python.Objects BkkCollector.Python.Collections BkkCollector.Python.Json
open BkkCollector.Python.Text
open BkkCollector.Realtime.GtfsRealtime BkkCollector.Realtime.GtfsRtParse
open BkkCollector.Realtime.PresenceLog BkkCollector.Realtime.PresenceReplay
open BkkCollector.Realtime.TripUpdatePolicy

/-! ### The entries of a feed -/

/-- A stop with its ordinal, or none where the entity has no stop. -/
abbrev Visit := Option (StopTimeUpdate × ℕ)

/-- What an entity yields a row for: each of its stops; itself where it has none or is deleted. -/
def visits (e : FeedEntity) : List Visit :=
  match e.tripUpdate with
  | none => if e.isDeleted = some true then [none] else []
  | some u => if u.stopTimeUpdate = [] then [none] else u.stopTimeUpdate.zipIdx.map some

/-- The entries of a feed. -/
def entries (feed : FeedMessage) : List (FeedEntity × Visit) :=
  feed.entity.flatMap fun e => (visits e).map (e, ·)

/-- The identity of an entity's trip. -/
def tripIdentity (e : FeedEntity) : Trip :=
  let t := (e.tripUpdate.bind (·.trip)).getD {}
  [orNone (some e.id), orNone t.tripId, orNone t.startDate, orNone t.startTime]

/-- The identity of a stop visit within a trip. -/
def stopIdentity : Visit → Stop
  | none => [.null, .null, .null]
  | some (stop, index) =>
    [uint32Value stop.stopSequence, if stop.stopSequence.isNone then .int index else .null,
      orNone stop.stopId]

/-- The ordinal of a stop visit. -/
def ordinal : Visit → Value
  | none => .null
  | some (_, index) => .int index

/-- The row of an entry: its identity, and the columns an observation looks at. -/
structure IsRow (e : FeedEntity) (v : Visit) (row : Row) : Prop where
  trip : tripOf row = tripIdentity e
  stop : stopOf row = stopIdentity v
  index : row.get "stop_time_update_index" = ordinal v
  deleted : row.get "entity_is_deleted" = boolValue e.isDeleted

/-! ### The rows of an entity -/

section Rows

variable {pb : Protobuf} {feed : FeedMessage} {context : PollContext} {e : FeedEntity}

theorem get_append_of_lookup {r s : Row} {field : String} (h : r.lookup field = none) :
    Row.get (r ++ s) field = s.get field := by
  rw [Row.get, Row.get, List.lookup_append, h, Option.none_or]

theorem get_append_of_some {r s : Row} {field : String} {v : Value} (h : r.lookup field = some v) :
    Row.get (r ++ s) field = v := by
  rw [Row.get, List.lookup_append, h, Option.some_or, Option.getD_some]

theorem lookup_of_names {row : Row} {field : String} (h : field ∉ row.map Prod.fst) :
    row.lookup field = none := by
  rw [List.lookup_eq_none_iff]
  intro p hp
  rw [bne_iff_ne]
  rintro rfl
  exact h (List.mem_map_of_mem hp)

theorem names_realcityVehicle (v : Option RealcityVehicle) :
    (realcityVehicle v).map Prod.fst = (realcityVehicle none).map Prod.fst := by
  cases v <;> rfl

theorem names_tripDesc {trip : Option TripDescriptor} {row : Row}
    (h : tripDesc pb trip = .ok row) : row.map Prod.fst = emptyTrip.map Prod.fst := by
  cases trip with
  | none =>
    cases h
    rfl
  | some t =>
    simp only [tripDesc, bind_eq_ok, pure_eq_ok] at h
    obtain ⟨modified, -, rfl⟩ := h
    rfl

theorem lookup_tripDesc {trip : Option TripDescriptor} {row : Row}
    (h : tripDesc pb trip = .ok row) :
    row.lookup "trip_id" = some (orNone (trip.getD {}).tripId) ∧
      row.lookup "start_date" = some (orNone (trip.getD {}).startDate) ∧
      row.lookup "start_time" = some (orNone (trip.getD {}).startTime) := by
  cases trip with
  | none =>
    cases h
    exact ⟨rfl, rfl, rfl⟩
  | some t =>
    simp only [tripDesc, bind_eq_ok, pure_eq_ok] at h
    obtain ⟨modified, -, rfl⟩ := h
    exact ⟨rfl, rfl, rfl⟩

/-- The columns in front of the trip. -/
def headColumns (pb : Protobuf) (feed : FeedMessage) (context : PollContext) (e : FeedEntity)
    (u : TripUpdate) (properties : Value) : Row :=
  pollContext pb feed context ++ entityContext e ++
    [("trip_update_timestamp", uint64Value u.timestamp), ("trip_delay", int32Value u.delay),
      ("trip_properties_json", properties)] ++ vehicleDesc pb u.vehicle

/-- Their names. -/
def headNames : List String :=
  ["schema_version", "poll_id", "request_started_at", "response_received_at", "fetched_at",
    "feed_header_timestamp", "feed_header_version", "feed_incrementality",
    "feed_incrementality_name", "entity_id", "entity_is_deleted", "trip_update_timestamp",
    "trip_delay", "trip_properties_json", "vehicle_id", "vehicle_label", "vehicle_license_plate",
    "vehicle_wheelchair_accessible", "vehicle_wheelchair_accessible_name", "bkk_vehicle_model",
    "bkk_deviated", "bkk_vehicle_type", "bkk_door_open", "bkk_stop_distance"]

section Trip

variable {u : TripUpdate} {properties : Value} {trip : Row}

theorem names_headColumns :
    (headColumns pb feed context e u properties).map Prod.fst = headNames := by
  simp only [headColumns, vehicleDesc, List.map_append,
    names_realcityVehicle (u.vehicle.getD {}).realcity]
  rfl

theorem lookup_headColumns {field : String} (h : field ∉ headNames) :
    (headColumns pb feed context e u properties).lookup field = none :=
  lookup_of_names (names_headColumns ▸ h)

/-- A column of the trip, in a row of a trip update. -/
theorem get_tripColumn {row : Row} {field : String} {v : Value} (h : field ∉ headNames)
    (hv : trip.lookup field = some v) :
    Row.get (headColumns pb feed context e u properties ++ trip ++ row) field = v := by
  rw [List.append_assoc, get_append_of_lookup (lookup_headColumns h), get_append_of_some hv]

/-- A column of the stop, in a row of a trip update. -/
theorem get_stopColumn (htrip : tripDesc pb u.trip = .ok trip) {row : Row} {field : String}
    (h : field ∉ headNames ++ emptyTrip.map Prod.fst) :
    Row.get (headColumns pb feed context e u properties ++ trip ++ row) field = row.get field := by
  rw [List.mem_append, not_or] at h
  rw [List.append_assoc, get_append_of_lookup (lookup_headColumns h.1),
    get_append_of_lookup (lookup_of_names (names_tripDesc htrip ▸ h.2))]

/-- A column in front, in a row of a trip update. -/
theorem get_headColumn {row : Row} {field : String} {v : Value}
    (hv : (headColumns pb feed context e u properties).lookup field = some v) :
    Row.get (headColumns pb feed context e u properties ++ trip ++ row) field = v := by
  rw [List.append_assoc, get_append_of_some hv]

/-- A row of a trip update is the row of its stop columns. -/
theorem isRow_of_columns (hu : e.tripUpdate = some u) (htrip : tripDesc pb u.trip = .ok trip)
    {v : Visit} {row : Row} (hstop : stopOf row = stopIdentity v)
    (hindex : row.get "stop_time_update_index" = ordinal v) :
    IsRow e v (headColumns pb feed context e u properties ++ trip ++ row) where
  trip := by
    obtain ⟨hid, hdate, htime⟩ := lookup_tripDesc htrip
    have hentity : (headColumns pb feed context e u properties).lookup "entity_id" =
        some (orNone (some e.id)) := rfl
    show [_, _, _, _] = _
    rw [get_headColumn hentity, get_tripColumn (by decide) hid, get_tripColumn (by decide) hdate,
      get_tripColumn (by decide) htime, tripIdentity, hu]
    rfl
  stop := by
    rw [← hstop]
    show [_, _, _] = [_, _, _]
    rw [get_stopColumn htrip (by decide), get_stopColumn htrip (by decide),
      get_stopColumn htrip (by decide)]
  index := by rw [get_stopColumn htrip (by decide), hindex]
  deleted := get_headColumn rfl

end Trip

theorem isRow_stopRow {u : TripUpdate} {properties : Value} {trip : Row}
    (hu : e.tripUpdate = some u) (htrip : tripDesc pb u.trip = .ok trip) {index : ℕ}
    {stop : StopTimeUpdate} {row : Row} (h : stopRow pb index stop = .ok row) :
    IsRow e (some (stop, index))
      (headColumns pb feed context e u properties ++ trip ++ row) := by
  simp only [stopRow, bind_eq_ok, pure_eq_ok] at h
  obtain ⟨_, -, rfl⟩ := h
  exact isRow_of_columns hu htrip rfl rfl

/-- The rows of the stops of a trip update. -/
theorem stopRows_forall₂ {u : TripUpdate} {properties : Value} {trip : Row}
    (hu : e.tripUpdate = some u) (htrip : tripDesc pb u.trip = .ok trip) {index : ℕ}
    {stops : List StopTimeUpdate} {rows : List Row}
    (h : stopRows pb (headColumns pb feed context e u properties ++ trip) index stops =
      .ok rows) :
    List.Forall₂ (IsRow e) ((stops.zipIdx index).map some) rows := by
  induction stops generalizing index rows with
  | nil =>
    cases h
    exact List.Forall₂.nil
  | cons stop stops ih =>
    simp only [stopRows, bind_eq_ok, pure_eq_ok] at h
    obtain ⟨row, hrow, rest, hrest, rfl⟩ := h
    exact List.Forall₂.cons (isRow_stopRow hu htrip hrow) (ih hrest)

/-- The rows of an entity. -/
theorem entityRows_forall₂ {rows : List Row}
    (h : (match e.tripUpdate with
      | none => .ok (deletionRow (pollContext pb feed context) e)
      | some update => tripUpdateRows pb (pollContext pb feed context) e update :
        Except PyError (List Row)) = .ok rows) :
    List.Forall₂ (IsRow e) (visits e) rows := by
  cases hu : e.tripUpdate with
  | none =>
    simp only [hu, Except.ok.injEq] at h
    subst h
    simp only [visits, hu, deletionRow]
    split_ifs with hdeleted
    · refine List.Forall₂.cons ⟨?_, rfl, rfl, rfl⟩ List.Forall₂.nil
      rw [tripIdentity, hu]
      rfl
    · exact List.Forall₂.nil
  | some u =>
    simp only [hu, tripUpdateRows, bind_eq_ok] at h
    obtain ⟨trip, htrip, properties, -, h⟩ := h
    simp only [visits, hu]
    split_ifs at h ⊢ with hstops
    · rw [pure_eq_ok] at h
      subst h
      exact List.Forall₂.cons (isRow_of_columns hu htrip rfl rfl) List.Forall₂.nil
    · exact stopRows_forall₂ hu htrip h

/-- **The rows of a feed** are those of its entries, in order. -/
theorem rows_spec {rows : List Row} (h : parseTripUpdates pb feed context = .ok rows) :
    List.Forall₂ (fun entry row => IsRow entry.1 entry.2 row) (entries feed) rows := by
  unfold parseTripUpdates at h
  unfold entries
  generalize feed.entity = es at h ⊢
  induction es generalizing rows with
  | nil =>
    cases h
    exact List.Forall₂.nil
  | cons entity es ih =>
    simp only [forEntities, bind_eq_ok, pure_eq_ok] at h
    obtain ⟨own, hown, rest, hrest, rfl⟩ := h
    rw [List.flatMap_cons]
    refine List.rel_append ?_ (ih hrest)
    rw [List.forall₂_map_left_iff]
    exact entityRows_forall₂ hown

end Rows

/-! ### The identities of the entries -/

/-- The bytes of a string field on the wire. -/
def wire : Text → List UInt8
  | .str s => encodeUtf8 s.toList
  | .bytes b => b

theorem wire_eq_of_orNone {t t' : Text} (h : orNone (some t) = orNone (some t')) :
    wire t = wire t' := by
  have hempty : ∀ t : Text, orNone (some t) = .null → wire t = [] := by
    intro t ht
    cases t with
    | str s =>
      by_cases hs : s = ""
      · subst hs
        rfl
      · simp [orNone, Text.value, Value.truthy, hs] at ht
    | bytes b =>
      by_cases hb : b = []
      · exact hb
      · simp [orNone, Text.value, Value.truthy, hb] at ht
  by_cases ht : t.value.truthy = true
  · by_cases ht' : t'.value.truthy = true
    · simp only [orNone, if_pos ht, if_pos ht'] at h
      cases t <;> cases t' <;> cases h <;> rfl
    · have hnull : orNone (some t') = .null := if_neg ht'
      rw [hempty t (h.trans hnull), hempty t' hnull]
  · have hnull : orNone (some t) = .null := if_neg ht
    rw [hempty t hnull, hempty t' (h.symm.trans hnull)]

theorem uint32Value_inj {a b : UInt32} (h : uint32Value (some a) = uint32Value (some b)) :
    a = b := by
  simp only [uint32Value, Value.int.injEq, Nat.cast_inj] at h
  exact UInt32.toNat_inj.mp h

/-- Two stops have one identity only if they have one sequence number, or neither has one and they
have one ordinal. -/
theorem stopIdentity_eq {a b : StopTimeUpdate} {i j : ℕ}
    (h : stopIdentity (some (a, i)) = stopIdentity (some (b, j))) :
    (∃ n, a.stopSequence = some n ∧ b.stopSequence = some n) ∨ i = j := by
  simp only [stopIdentity, List.cons.injEq, and_true] at h
  obtain ⟨hseq, hindex, -⟩ := h
  cases ha : a.stopSequence with
  | some n =>
    cases hb : b.stopSequence with
    | some m =>
      rw [ha, hb] at hseq
      exact Or.inl ⟨n, rfl, by rw [uint32Value_inj hseq]⟩
    | none =>
      rw [ha, hb] at hseq
      cases hseq
  | none =>
    cases hb : b.stopSequence with
    | some m =>
      rw [ha, hb] at hseq
      cases hseq
    | none =>
      simp only [ha, hb, Option.isNone_none, if_true, Value.int.injEq, Nat.cast_inj] at hindex
      exact Or.inr hindex

/-- The stops of one trip update have distinct identities. -/
theorem nodup_stops {stops : List StopTimeUpdate}
    (hseq : (stops.filterMap (·.stopSequence)).Nodup) (start : ℕ) :
    (((stops.zipIdx start).map some).map stopIdentity).Nodup := by
  induction stops generalizing start with
  | nil => exact List.nodup_nil
  | cons stop stops ih =>
    rw [List.zipIdx_cons, List.map_cons, List.map_cons, List.nodup_cons]
    constructor
    · intro hmem
      simp only [List.map_map, List.mem_map, Function.comp_apply, Prod.exists] at hmem
      obtain ⟨stop', index, hin, heq⟩ := hmem
      rcases stopIdentity_eq heq with ⟨n, hn', hn⟩ | hindex
      · -- an explicit number is given once
        rw [List.filterMap_cons_some hn, List.nodup_cons] at hseq
        exact hseq.1 (List.mem_filterMap.mpr ⟨stop', List.fst_mem_of_mem_zipIdx hin, hn'⟩)
      · -- an ordinal is
        have := List.le_snd_of_mem_zipIdx hin
        omega
    · refine ih (List.Nodup.sublist ?_ hseq) (start + 1)
      exact (List.sublist_cons_self stop stops).filterMap _

/-- The rows of one entity have distinct stop identities. -/
theorem nodup_visits {e : FeedEntity}
    (hseq : ∀ u, e.tripUpdate = some u → (u.stopTimeUpdate.filterMap (·.stopSequence)).Nodup) :
    ((visits e).map stopIdentity).Nodup := by
  unfold visits
  cases hu : e.tripUpdate with
  | none => split_ifs <;> simp
  | some u =>
    simp only
    split_ifs
    · simp
    · exact nodup_stops (hseq u hu) 0

/-- **The identities of the entries** are distinct. -/
theorem nodup_identities {feed : FeedMessage}
    (hids : (feed.entity.map fun e => wire e.id).Nodup)
    (hseq : ∀ e ∈ feed.entity, ∀ u, e.tripUpdate = some u →
      (u.stopTimeUpdate.filterMap (·.stopSequence)).Nodup) :
    ((entries feed).map fun entry => tripIdentity entry.1 ++ stopIdentity entry.2).Nodup := by
  rw [entries, List.map_flatMap, List.nodup_flatMap]
  constructor
  · intro e he
    rw [List.map_map]
    have hown := (nodup_visits (hseq e he)).map (List.append_right_injective (tripIdentity e))
    rwa [List.map_map] at hown
  · refine (List.pairwise_map.mp hids).imp fun {e e'} hne => ?_
    intro identity h h'
    simp only [List.map_map, List.mem_map, Function.comp_apply] at h h'
    obtain ⟨v, -, rfl⟩ := h
    obtain ⟨v', -, heq⟩ := h'
    refine hne (wire_eq_of_orNone ?_).symm
    exact List.head_eq_of_cons_eq heq

/-! ### What an observation counts -/

/-- The trips of an observation are those of the rows, each once. -/
theorem length_keys {rows : List Row} {trips : List Trip} (hnodup : trips.Nodup)
    (htrips : ∀ trip, trip ∈ trips ↔ ∃ row ∈ rows, tripOf row = trip) :
    (observation rows).members.keys.length = trips.length := by
  refine ((List.perm_ext_iff_of_nodup (observation rows).members.keys_nodup hnodup).mpr
    fun trip => ?_).length_eq
  rw [← AList.mem_keys, (observation_spec rows).1, htrips]

/-- The stop visits of a membership, with their trips. -/
def pairs (members : Members) : List (Trip × Stop) :=
  members.entries.flatMap fun entry => entry.2.toList.map (entry.1, ·)

theorem length_pairs (members : Members) : (pairs members).length = members.total := by
  rw [pairs, List.length_flatMap, SetDict.total]
  simp only [List.length_map]
  rfl

theorem mem_pairs {members : Members} {p : Trip × Stop} :
    p ∈ pairs members ↔ p.2 ∈ ((members.lookup p.1).getD ∅).toList := by
  obtain ⟨trip, stop⟩ := p
  simp only [pairs, List.mem_flatMap, List.mem_map, Prod.mk.injEq]
  constructor
  · rintro ⟨⟨trip, stops⟩, hentry, stop, hstop, rfl, rfl⟩
    rwa [AList.mem_lookup_iff.mpr hentry, Option.getD_some]
  · intro h
    cases hl : members.lookup trip with
    | none => simp [hl] at h
    | some stops =>
      rw [hl, Option.getD_some] at h
      exact ⟨⟨trip, stops⟩, AList.mem_lookup_iff.mp hl, stop, h, rfl, rfl⟩

theorem nodup_pairs (members : Members) : (pairs members).Nodup := by
  rw [pairs, List.nodup_flatMap]
  refine ⟨fun entry _ => entry.2.nodup.map (Prod.mk_right_injective entry.1),
    (List.nodupKeys_iff_pairwise.mp members.nodupKeys).imp fun {entry entry'} hne => ?_⟩
  intro p h h'
  obtain ⟨stop, -, rfl⟩ := List.mem_map.mp h
  obtain ⟨stop', -, heq⟩ := List.mem_map.mp h'
  exact hne (congrArg Prod.fst heq).symm

/-- The stop visits of an observation are those of the rows, each once. -/
theorem total_observation {rows : List Row} {stops : List (Trip × Stop)} (hnodup : stops.Nodup)
    (hstops : ∀ p, p ∈ stops ↔ ∃ row ∈ rows, row.get "stop_time_update_index" ≠ .null ∧
      (tripOf row, stopOf row) = p) :
    (observation rows).members.total = stops.length := by
  rw [← length_pairs]
  refine ((List.perm_ext_iff_of_nodup (nodup_pairs _) hnodup).mpr fun p => ?_).length_eq
  rw [mem_pairs, (observation_spec rows).2.1, hstops]
  constructor
  · rintro ⟨row, hrow, htrip, hindex, hstop⟩
    exact ⟨row, hrow, hindex, Prod.ext htrip hstop⟩
  · rintro ⟨row, hrow, hindex, rfl⟩
    exact ⟨row, hrow, rfl, hindex, rfl⟩

/-- What an observation that succeeded counts; none of its rows is a deletion. -/
theorem observe_counts {json : Json} {w : World} {rows : List Row} {date : String}
    {context : Context} {freshId : String} {append : Append} {details : Details}
    (h : (w.observe json rows date context freshId append).2 = .ok details) :
    details.presentTrips = (observation rows).members.keys.length ∧
      details.presentStopVisits = (observation rows).members.total ∧
      ∀ row ∈ rows, (row.get "entity_is_deleted").truthy = false := by
  simp only [World.observe, TripUpdatePresence.observe, TripUpdatePresence.prepare] at h
  split_ifs at h with hfull hdeleted
  · cases h
  · cases h
  · cases hrecord : (w.writer.switchDate date).encode json (observation rows) context freshId with
    | error e =>
      rw [hrecord] at h
      cases h
    | ok record =>
      rw [hrecord] at h
      have hcounts : record.tripCount = (observation rows).members.keys.length ∧
          record.stopCount = (observation rows).members.total := by
        simp only [TripUpdatePresence.encode, bind_eq_ok, pure_eq_ok] at hrecord
        obtain ⟨_, -, _, -, rfl⟩ := hrecord
        exact ⟨rfl, rfl⟩
      cases append with
      | written =>
        cases h
        refine ⟨hcounts.1, hcounts.2, fun row hrow => ?_⟩
        rw [← Bool.not_eq_true]
        exact fun htrue => hdeleted (List.any_eq_true.mpr ⟨row, hrow, htrue⟩)
      | lost e => cases h
      | durable e => cases h

theorem map_eq_of_forall₂ {α β γ : Type} {R : α → β → Prop} {f : α → γ} {g : β → γ} {l : List α}
    {m : List β} (h : List.Forall₂ R l m) (hfg : ∀ a b, R a b → g b = f a) : m.map g = l.map f := by
  induction h with
  | nil => rfl
  | cons hab _ ih => rw [List.map_cons, List.map_cons, hfg _ _ hab, ih]

section Counts

variable {feed : FeedMessage} {rows : List Row}

/-- The number of stops of an entity. -/
def stopCount (e : FeedEntity) : ℕ := ((e.tripUpdate.map (·.stopTimeUpdate.length)).getD 0)

/-- The stop visits among the entries. -/
theorem length_stopEntries (feed : FeedMessage) :
    ((entries feed).filter (·.2.isSome)).length = (feed.entity.map stopCount).sum := by
  rw [entries, List.filter_flatMap, List.length_flatMap]
  congr 1
  refine List.map_congr_left fun e _ => ?_
  unfold visits stopCount
  cases e.tripUpdate with
  | none => split_ifs <;> rfl
  | some u =>
    simp only [Option.map_some, Option.getD_some]
    split_ifs with h
    · rw [h]
      rfl
    · rw [List.filter_eq_self.mpr fun entry hentry => ?_]
      · simp
      · simp only [List.map_map, List.mem_map, Function.comp_apply] at hentry
        obtain ⟨visit, -, rfl⟩ := hentry
        rfl

/-- An entity of a response without deletions has rows exactly if it has a trip update. -/
theorem mem_entries_iff (hrows : List.Forall₂ (fun entry row => IsRow entry.1 entry.2 row)
      (entries feed) rows)
    (hdeleted : ∀ row ∈ rows, (row.get "entity_is_deleted").truthy = false) {e : FeedEntity} :
    (∃ v, (e, v) ∈ entries feed) ↔ e ∈ feed.entity ∧ e.tripUpdate.isSome := by
  have hmap := map_eq_of_forall₂ (f := fun entry => boolValue entry.1.isDeleted)
    (g := (Row.get · "entity_is_deleted")) hrows fun entry row h => h.deleted
  have hnot : ∀ v, (e, v) ∈ entries feed → e.isDeleted ≠ some true := by
    intro v hv htrue
    have hmem : boolValue e.isDeleted ∈ rows.map (Row.get · "entity_is_deleted") :=
      hmap ▸ List.mem_map_of_mem (f := fun entry => boolValue entry.1.isDeleted) hv
    obtain ⟨row, hrow, hval⟩ := List.mem_map.mp hmem
    have := hdeleted row hrow
    rw [hval, htrue] at this
    cases this
  simp only [entries, List.mem_flatMap, List.mem_map, Prod.mk.injEq] at hnot ⊢
  constructor
  · rintro ⟨v, e', he', v', hv', rfl, rfl⟩
    refine ⟨he', ?_⟩
    cases hu : e'.tripUpdate with
    | some u => rfl
    | none =>
      have hne := hnot v' ⟨e', he', v', hv', rfl, rfl⟩
      simp [visits, hu, hne] at hv'
  · rintro ⟨he, hsome⟩
    obtain ⟨u, hu⟩ := Option.isSome_iff_exists.mp hsome
    have hvisits : visits e ≠ [] := by
      simp only [visits, hu]
      split_ifs with hstops
      · exact List.cons_ne_nil _ _
      · simpa using hstops
    obtain ⟨v, hv⟩ := List.exists_mem_of_ne_nil _ hvisits
    exact ⟨v, e, he, v, hv, rfl, rfl⟩

/-- The trips of the rows. -/
theorem length_trips (hrows : List.Forall₂ (fun entry row => IsRow entry.1 entry.2 row)
      (entries feed) rows)
    (hdeleted : ∀ row ∈ rows, (row.get "entity_is_deleted").truthy = false)
    (hids : (feed.entity.map fun e => wire e.id).Nodup) :
    (observation rows).members.keys.length =
      (feed.entity.filter (·.tripUpdate.isSome)).length := by
  have hmap := map_eq_of_forall₂ (f := fun entry => tripIdentity entry.1) (g := tripOf) hrows
    fun entry row h => h.trip
  have hnodup : ((feed.entity.filter (·.tripUpdate.isSome)).map tripIdentity).Nodup := by
    have hsub : (((feed.entity.filter (·.tripUpdate.isSome))).map fun e => wire e.id).Nodup :=
      hids.sublist (List.filter_sublist.map _)
    refine List.pairwise_map.mpr ((List.pairwise_map.mp hsub).imp fun {e e'} hne heq => hne ?_)
    exact wire_eq_of_orNone (List.head_eq_of_cons_eq heq)
  rw [length_keys hnodup fun trip => ?_, List.length_map]
  rw [← List.mem_map, hmap]
  simp only [List.mem_map, List.mem_filter, Prod.exists]
  constructor
  · rintro ⟨e, he, rfl⟩
    obtain ⟨v, hv⟩ := (mem_entries_iff hrows hdeleted).mpr he
    exact ⟨e, v, hv, rfl⟩
  · rintro ⟨e, v, hv, rfl⟩
    exact ⟨e, (mem_entries_iff hrows hdeleted).mp ⟨v, hv⟩, rfl⟩

/-- The stop visits of the rows. -/
theorem total_stops (hrows : List.Forall₂ (fun entry row => IsRow entry.1 entry.2 row)
      (entries feed) rows)
    (hnodup : ((entries feed).map fun entry => tripIdentity entry.1 ++
      stopIdentity entry.2).Nodup) :
    (observation rows).members.total = (feed.entity.map stopCount).sum := by
  have hmap := map_eq_of_forall₂
    (f := fun entry => (ordinal entry.2, tripIdentity entry.1, stopIdentity entry.2))
    (g := fun row => (row.get "stop_time_update_index", tripOf row, stopOf row)) hrows
    fun entry row h => by rw [h.index, h.trip, h.stop]
  have hordinal : ∀ v : Visit, ordinal v ≠ .null ↔ v.isSome := by
    intro v
    cases v <;> simp [ordinal]
  have hpairs : (((entries feed).filter (·.2.isSome)).map fun entry =>
      (tripIdentity entry.1, stopIdentity entry.2)).Nodup := by
    refine List.Nodup.of_map (fun p => p.1 ++ p.2) ?_
    rw [List.map_map]
    exact hnodup.sublist (List.filter_sublist.map _)
  rw [total_observation hpairs fun p => ?_, List.length_map, length_stopEntries]
  have hmem : ∀ i, (i, p) ∈ rows.map (fun row =>
      (row.get "stop_time_update_index", tripOf row, stopOf row)) ↔
        ∃ entry ∈ entries feed, (ordinal entry.2, tripIdentity entry.1, stopIdentity entry.2) =
          (i, p) := by
    intro i
    rw [hmap, List.mem_map]
  simp only [List.mem_map, Prod.mk.injEq] at hmem
  constructor
  · intro hp
    simp only [List.mem_map, List.mem_filter] at hp
    obtain ⟨entry, ⟨hentry, hsome⟩, heq⟩ := hp
    obtain ⟨row, hrow, hindex, hident⟩ := (hmem (ordinal entry.2)).mpr ⟨entry, hentry, rfl, heq⟩
    exact ⟨row, hrow, hindex ▸ (hordinal entry.2).mpr hsome, hident⟩
  · rintro ⟨row, hrow, hindex, hident⟩
    obtain ⟨entry, hentry, hindex', heq⟩ := (hmem _).mp ⟨row, hrow, rfl, hident⟩
    refine List.mem_map.mpr ⟨entry, List.mem_filter.mpr ⟨hentry, ?_⟩, heq⟩
    exact (hordinal entry.2).mp (hindex'.symm ▸ hindex)

end Counts

/-! ### The keys of the rows -/

/-- A value that `==` compares as it is: no bool and no float. -/
def Plain : Value → Prop
  | .bool _ | .float _ => False
  | _ => True

/-- A left inverse of `Value.key` on such values. -/
def unkey : Value → Value
  | .float q => .int q.num
  | v => v

theorem unkey_key {v : Value} (h : Plain v) : unkey v.key = v := by
  cases v with
  | int i => simp [Value.key, Value.number, unkey]
  | bool b => exact h.elim
  | float q => exact h.elim
  | null => rfl
  | str s => rfl
  | bytes b => rfl

theorem plain_orNone (t : Option Text) : Plain (orNone t) := by
  cases t with
  | none => trivial
  | some t =>
    simp only [orNone]
    split_ifs
    · cases t <;> trivial
    · trivial

theorem plain_identity (e : FeedEntity) (v : Visit) :
    ∀ x ∈ tripIdentity e ++ stopIdentity v, Plain x := by
  refine List.forall_mem_append.mpr ⟨?_, ?_⟩
  · simp only [tripIdentity, List.forall_mem_cons]
    exact ⟨plain_orNone _, plain_orNone _, plain_orNone _, plain_orNone _, nofun⟩
  · cases v with
    | none => simp [stopIdentity, Plain]
    | some v =>
      obtain ⟨stop, index⟩ := v
      simp only [stopIdentity, List.forall_mem_cons]
      refine ⟨?_, ?_, plain_orNone _, nofun⟩
      · cases stop.stopSequence <;> trivial
      · split_ifs <;> trivial

/-- The key of a row, as `==` and `hash` see it. -/
def rowKey (row : Row) : List Value := tripUpdateKeyFields.map fun field => (row.get field).key

theorem unkey_rowKey {e : FeedEntity} {v : Visit} {row : Row} (h : IsRow e v row) :
    (rowKey row).map unkey = tripIdentity e ++ stopIdentity v := by
  have hkey : rowKey row = (tripIdentity e ++ stopIdentity v).map Value.key := by
    rw [← h.trip, ← h.stop, tripOf, stopOf, ← List.map_append, tripIdentityFields,
      stopIdentityFields, List.take_append_drop, List.map_map]
    rfl
  rw [hkey, List.map_map]
  exact (List.map_congr_left fun x hx => unkey_key (plain_identity e v x hx)).trans (List.map_id _)

/-- **Stop visits are distinct and counted.** Take a TripUpdates feed whose entities have distinct
identifiers, and in which no entity gives one sequence number twice. The rows of the parser are one
for each stop and one for each entity without stops, and their keys are distinct. An observation of
them that succeeds, which one of a deletion does not, counts the entities with a trip update, and
the stops. -/
theorem stopVisits_distinct_counted (pb : Protobuf) (feed : FeedMessage) (context : PollContext)
    (rows : List Row) (hrows : parseTripUpdates pb feed context = .ok rows)
    (hids : (feed.entity.map fun e => wire e.id).Nodup)
    (hseq : ∀ e ∈ feed.entity, ∀ u, e.tripUpdate = some u →
      (u.stopTimeUpdate.filterMap (·.stopSequence)).Nodup) :
    (rows.map rowKey).Nodup ∧
    List.Forall₂ (fun entry row => IsRow entry.1 entry.2 row) (entries feed) rows ∧
    ∀ json w date presenceContext freshId append details,
      (World.observe json w rows date presenceContext freshId append).2 = .ok details →
      details.presentTrips = (feed.entity.filter (·.tripUpdate.isSome)).length ∧
        details.presentStopVisits = (feed.entity.map stopCount).sum := by
  have hspec := rows_spec hrows
  have hnodup := nodup_identities hids hseq
  refine ⟨?_, hspec, fun json w date presenceContext freshId append details hok => ?_⟩
  · refine List.Nodup.of_map (List.map unkey) ?_
    have hkeys := map_eq_of_forall₂ (g := fun row => (rowKey row).map unkey) hspec
      fun entry row h => unkey_rowKey h
    rw [List.map_map]
    exact hkeys ▸ hnodup
  · obtain ⟨htrips, hstops, hdeleted⟩ := observe_counts hok
    rw [htrips, hstops]
    exact ⟨length_trips hspec hdeleted hids, total_stops hspec hnodup⟩

/-- An entity with three visits to one stop, of which one has a number, and an entity without
stops. -/
def sampleFeed : FeedMessage where
  header := { incrementality := some 0 }
  entity :=
    [{ id := .str "E1"
       tripUpdate := some
         { trip := some { tripId := some (.str "T1") }
           stopTimeUpdate :=
             [{ stopId := some (.str "S") }, { stopSequence := some 4, stopId := some (.str "S") },
               { stopId := some (.str "S") }] } },
      { id := .str "E2", tripUpdate := some {} }]

/-- A runtime that knows no enum. -/
def noEnums : Protobuf := ⟨fun _ _ => "", fun _ => .ok .null⟩

/-- Its four rows have distinct keys, and their observation counts two trips and three visits. -/
theorem stopVisits_distinct_counted_sample :
    ∃ rows, parseTripUpdates noEnums sampleFeed ⟨none, "s", "r"⟩ = .ok rows ∧
      (rows.map rowKey).Nodup ∧ rows.length = 4 ∧
      ∃ details, (World.observe plainJson { writer := TripUpdatePresence.start "run" "stream" }
          rows "2026-01-01" ⟨"p1", "s", "r", none, some 0⟩ "a" .written).2 = .ok details ∧
        details.presentTrips = 2 ∧ details.presentStopVisits = 3 := by
  have hobserve : (parseTripUpdates noEnums sampleFeed ⟨none, "s", "r"⟩ >>= fun rows =>
      (World.observe plainJson { writer := TripUpdatePresence.start "run" "stream" }
        rows "2026-01-01" ⟨"p1", "s", "r", none, some 0⟩ "a" .written).2) =
      .ok ⟨presencePath "2026-01-01", .baseline, "a", 1, 2, 3, 1⟩ := by decide +kernel
  obtain ⟨rows, hrows, hok⟩ := bind_eq_ok.mp hobserve
  obtain ⟨hkeys, hspec, hcounts⟩ := stopVisits_distinct_counted noEnums sampleFeed _ rows hrows
    (by decide +kernel) (by
      refine List.forall_mem_cons.mpr ⟨?_, List.forall_mem_singleton.mpr ?_⟩
      all_goals
        rintro u ⟨⟩
        decide)
  refine ⟨rows, hrows, hkeys, ?_, _, hok, hcounts _ _ _ _ _ _ _ hok⟩
  rw [← hspec.length_eq]
  rfl

end BkkCollector.Realtime.StopVisits
