import Mathlib.Data.List.Nodup
import BkkCollector.Frontend.Snapshot

/-! # The compact form

The compact form and the GeoJSON form of a snapshot are checked by two validators; a row of the one
is accepted exactly where its feature is in the other.

* `decode_encodePublication`: what the exporter encodes is decoded to the same snapshot.
* `compact_of_decode`: what is decoded is accepted, and is encoded to what it was.
* `compactForm_bijective`: both. The exporter also has to encode the strings in UTF-8, which fails
  for a route label with half a surrogate pair. -/

namespace BkkCollector.Frontend.CompactForm

open BkkCollector.Python.Objects
open BkkCollector.Frontend.Strings BkkCollector.Frontend.Values BkkCollector.Frontend.Snapshot

/-! ### Objects -/

section Objects

variable {value : JsValue} {keys : List String} {key : String}

theorem object_iff : object value keys = true ↔ ∃ members, value = .object members ∧
    members.length = keys.length ∧ ∀ key ∈ keys, (members.lookup (js key)).isSome := by
  cases value with
  | object members =>
    have hobject : object (.object members) keys = true ↔ members.length = keys.length ∧
        ∀ key ∈ keys, (members.lookup (js key)).isSome := by
      rw [object, Bool.and_eq_true, beq_iff_eq, List.all_eq_true]
    rw [hobject]
    constructor
    · exact fun h => ⟨members, rfl, h⟩
    · rintro ⟨members', heq, h⟩
      cases heq
      exact h
  | _ =>
    constructor
    · intro h
      cases h
    · rintro ⟨members, h, -⟩
      cases h

theorem lookup_of_object (h : object value keys = true) (hkey : key ∈ keys) :
    ∃ members, value = .object members ∧ members.lookup (js key) = some (value.get key) := by
  obtain ⟨members, rfl, -, hlookup⟩ := object_iff.mp h
  refine ⟨members, rfl, ?_⟩
  obtain ⟨v, hv⟩ := Option.isSome_iff_exists.mp (hlookup key hkey)
  rw [JsValue.get, hv, Option.getD_some]

theorem lookup_of_mem {members : List (JsString × JsValue)} (h : (members.map Prod.fst).Nodup)
    {m : JsString × JsValue} (hm : m ∈ members) : members.lookup m.1 = some m.2 := by
  induction members with
  | nil => cases hm
  | cons m' members ih =>
    rw [List.map_cons, List.nodup_cons] at h
    rw [List.lookup_cons]
    rcases List.mem_cons.mp hm with rfl | hm
    · rw [beq_self_eq_true]
    · have hne : m.1 ≠ m'.1 := fun heq => h.1 (heq ▸ List.mem_map_of_mem hm)
      rw [beq_false_of_ne hne]
      exact ih h.2 hm

theorem mem_of_lookup_isSome {members : List (JsString × JsValue)} {k : JsString}
    (h : (members.lookup k).isSome) : k ∈ members.map Prod.fst := by
  induction members with
  | nil => cases h
  | cons m members ih =>
    rw [List.lookup_cons] at h
    by_cases hk : k = m.1
    · rw [hk, List.map_cons]
      exact List.mem_cons_self
    · rw [beq_false_of_ne hk] at h
      exact List.mem_cons_of_mem _ (ih h)

/-- The members of an object with these keys only. -/
theorem perm_of_object {members : List (JsString × JsValue)}
    (h : object (.object members) keys = true) (hkeys : keys.Nodup) :
    members.Perm (keys.map fun key => (js key, (JsValue.object members).get key)) := by
  obtain ⟨_, ⟨⟩, hlength, hlookup⟩ := object_iff.mp h
  have hnodup : (keys.map js).Nodup := hkeys.map js_injective
  have hsubset : keys.map js ⊆ members.map Prod.fst := by
    rintro _ hk
    obtain ⟨key, hkey, rfl⟩ := List.mem_map.mp hk
    exact mem_of_lookup_isSome (hlookup key hkey)
  have hperm : (keys.map js).Perm (members.map Prod.fst) := by
    refine (List.subperm_of_subset hnodup hsubset).perm_of_length_le ?_
    rw [List.length_map, List.length_map, hlength]
  have hself : (members.map Prod.fst).map (fun k => (k, (members.lookup k).getD .null)) =
      members := by
    rw [List.map_map]
    refine (List.map_congr_left fun m hm => ?_).trans (List.map_id _)
    rw [Function.comp_apply, lookup_of_mem (hperm.nodup_iff.mp hnodup) hm]
    rfl
  have hmap := hperm.map fun k => (k, (members.lookup k).getD JsValue.null)
  rw [hself, List.map_map] at hmap
  exact hmap.symm

theorem same_of_object (h : object value keys = true) (hkeys : keys.Nodup) :
    Same (.object (keys.map fun key => (js key, value.get key))) value := by
  obtain ⟨members, rfl, -⟩ := object_iff.mp h
  exact .perm (perm_of_object h hkeys).symm

theorem all_of_object (h : object value keys = true) (hkeys : keys.Nodup)
    (number : Option ℚ → Bool) (string : JsString → Bool) :
    value.all number string =
      keys.all fun key => string (js key) && (value.get key).all number string := by
  obtain ⟨members, rfl, -⟩ := object_iff.mp h
  rw [JsValue.all, allMembers_eq, (perm_of_object h hkeys).all_eq, List.all_map]
  rfl

theorem object_set (h : object value keys = true) (hkey : key ∈ keys) (member : JsValue) :
    object (value.set key member) keys = true := by
  obtain ⟨members, rfl, hlength, hlookup⟩ := object_iff.mp h
  obtain ⟨v, hv⟩ := Option.isSome_iff_exists.mp (hlookup key hkey)
  obtain ⟨l, r, hmembers, hset⟩ := setMember_split hv
  refine object_iff.mpr ⟨setMember (js key) member members, rfl, ?_, fun k hk => ?_⟩
  · rw [hset, ← hlength, hmembers, List.length_append, List.length_append, List.length_cons,
      List.length_cons]
  · by_cases hkk : js k = js key
    · rw [hkk, lookup_setMember_self]
      rfl
    · rw [lookup_setMember_ne hkk]
      exact hlookup k hk

theorem get_set (h : object value keys = true) (member : JsValue) :
    (value.set key member).get key = member := by
  obtain ⟨members, rfl, -⟩ := object_iff.mp h
  exact JsValue.get_set_self

theorem set_get (h : object value keys = true) (hkey : key ∈ keys) :
    value.set key (value.get key) = value := by
  obtain ⟨members, rfl, hlookup⟩ := lookup_of_object h hkey
  obtain ⟨l, r, hmembers, hset⟩ := setMember_split hlookup
  rw [JsValue.set, hset, ← hmembers]

theorem same_set (h : object value keys = true) (hkey : key ∈ keys) {w : JsValue}
    (hw : Same w (value.get key)) : Same (value.set key w) value := by
  obtain ⟨members, rfl, hlookup⟩ := lookup_of_object h hkey
  exact Same.set hlookup hw

theorem item_of_object (h : object value keys = true) (hkey : key ∈ keys) :
    item value key = .ok (value.get key) := by
  obtain ⟨members, rfl, hlookup⟩ := lookup_of_object h hkey
  rw [item, hlookup]

theorem keysDiffer_of_object (h : object value keys = true) (hkeys : keys.Nodup) :
    keysDiffer value keys = .ok false := by
  obtain ⟨members, rfl, -⟩ := object_iff.mp h
  have hperm : (members.map fun m => JsValue.string m.1).Perm
      (keys.map fun key => .string (js key)) := by
    have hmap := (perm_of_object h hkeys).map fun m => JsValue.string m.1
    rwa [List.map_map] at hmap
  have hhash : (members.map fun m => JsValue.string m.1).all isHashable = true := by
    rw [List.all_map]
    exact List.all_eq_true.mpr fun _ _ => rfl
  have hknown : (members.map fun m => JsValue.string m.1).all (oneOf keys) = true := by
    rw [hperm.all_eq, List.all_map]
    refine List.all_eq_true.mpr fun key hkey => ?_
    exact List.any_eq_true.mpr ⟨key, hkey, JsValue.is_iff.mpr rfl⟩
  have hthere : (keys.all fun key => (members.map fun m => JsValue.string m.1).any (·.is key)) =
      true := by
    refine List.all_eq_true.mpr fun key hkey => ?_
    rw [hperm.any_eq, List.any_map]
    exact List.any_eq_true.mpr ⟨key, hkey, JsValue.is_iff.mpr rfl⟩
  rw [keysDiffer, elements]
  show (if (members.map fun m => JsValue.string m.1).all isHashable then _ else _) = _
  rw [if_pos hhash, hknown, hthere]
  rfl

end Objects

/-! ### Vocabulary -/

/-- The keys of a snapshot. -/
def snapshotKeys : List String :=
  ["schema_version", "generated_at", "vehicles", "health", "statistics", "public_layer_issues"]

/-- The keys of its vehicles. -/
def vehiclesKeys : List String :=
  ["type", "observed_at", "source_at", "records_in_source", "omitted_records", "features"]

/-- The keys of the objects of the contract, and the names its strings are taken from. -/
def vocabulary : List (List String) :=
  [snapshotKeys, vehiclesKeys, featureKeys, pointKeys, propertyKeys, feedNames, modes, states,
    issueCodes, ["Feature", "FeatureCollection", "Point"],
    ["state", "observed_at", "source_at", "cadence_seconds", "entities", "issues"],
    ["expected_polls", "recorded_polls", "data_polls"],
    ["state", "observed_at", "feeds", "maintenance"], ["state", "archive_enabled", "pending_days"],
    ["date", "quality", "feeds"], ["good", "flagged"],
    ["as_of", "evidenced_since", "evidenced_days", "verified_days", "last_verified_date",
      "polls_recorded", "event_rows", "raw_snapshots", "latest_day"],
    ["route_catalog_unavailable", "vehicle_snapshot_unavailable"]]

theorem vocabulary_plain : (vocabulary.all fun names =>
    decide names.Nodup && names.all fun name => (js name).all (· < 0x80)) = true := by
  decide +kernel

theorem nodup_of_mem {names : List String} (h : names ∈ vocabulary) : names.Nodup :=
  of_decide_eq_true (Bool.and_eq_true_iff.mp (List.all_eq_true.mp vocabulary_plain names h)).1

theorem ascii_of_mem {names : List String} (h : names ∈ vocabulary) {name : String}
    (hname : name ∈ names) : ∀ u ∈ js name, u < 0x80 := by
  have hall := (Bool.and_eq_true_iff.mp (List.all_eq_true.mp vocabulary_plain names h)).2
  exact fun u hu => of_decide_eq_true
    (List.all_eq_true.mp (List.all_eq_true.mp hall name hname) u hu)

/-! ### A feature and its row -/

/-- The shape that `encode_publication` expects of a feature. -/
structure Shaped (feature : JsValue) : Prop where
  keys : object feature featureKeys = true
  type : feature.get "type" = .string (js "Feature")
  pointKeys : object (feature.get "geometry") pointKeys = true
  pointType : (feature.get "geometry").get "type" = .string (js "Point")
  coordinates : ∃ a b, (feature.get "geometry").get "coordinates" = .array [a, b]
  propertyKeys : object (feature.get "properties") propertyKeys = true

/-- The row of a feature. -/
def rowOf (feature : JsValue) : JsValue :=
  let coordinates := (feature.get "geometry").get "coordinates"
  let properties := feature.get "properties"
  .array [feature.get "id", coordinates.nth 0, coordinates.nth 1, properties.get "route_label",
    properties.get "mode", properties.get "color", properties.get "bearing",
    properties.get "recorded_at"]

theorem eq_pair {value : JsValue} (h : value.isArray = true) (hlength : value.items.length = 2) :
    ∃ a b, value = .array [a, b] := by
  obtain ⟨a, b, hitems⟩ := List.length_eq_two.mp hlength
  exact ⟨a, b, by rw [value.eq_array h, hitems]⟩

/-- A feature that is accepted has the shape, and its row is accepted. -/
theorem vehicle_accepted {feature : JsValue} {timestamps : Option Timestamps}
    (h : (vehicle feature timestamps).1 = true) :
    Shaped feature ∧ vehicleTuple (rowOf feature) timestamps = vehicle feature timestamps := by
  dsimp only [vehicle] at h ⊢
  split_ifs at h ⊢ with hfields
  · simp only [Bool.and_eq_true, beq_iff_eq, JsValue.is_iff] at hfields
    obtain ⟨⟨⟨⟨hkeys, htype⟩, hid⟩, ⟨⟨⟨⟨hpoint, hpointType⟩, harray⟩, hlength⟩, hlon⟩, hlat⟩,
      ⟨⟨⟨hproperties, hlabel⟩, hmode⟩, hcolor⟩, hbearing⟩ := hfields
    refine ⟨⟨hkeys, htype, hpoint, hpointType, eq_pair harray hlength, hproperties⟩, ?_⟩
    have hrow : ((rowOf feature).isArray && (rowOf feature).items.length == 8 &&
        isId ((rowOf feature).nth 0) && finite ((rowOf feature).nth 1) (-180) 180 &&
        finite ((rowOf feature).nth 2) (-90) 90 && isLabel ((rowOf feature).nth 3) &&
        oneOf modes ((rowOf feature).nth 4) && isColor ((rowOf feature).nth 5) &&
        isBearing ((rowOf feature).nth 6)) = true := by
      simp only [Bool.and_eq_true, beq_iff_eq]
      exact ⟨⟨⟨⟨⟨⟨⟨⟨rfl, rfl⟩, hid⟩, hlon⟩, hlat⟩, hlabel⟩, hmode⟩, hcolor⟩, hbearing⟩
    rw [vehicleTuple, if_pos hrow]
    rfl

theorem publicationRow_of_shaped {feature : JsValue} (h : Shaped feature) :
    publicationRow feature = .ok (rowOf feature) := by
  obtain ⟨hkeys, htype, hpoint, hpointType, ⟨a, b, hcoordinates⟩, hproperties⟩ := h
  have hitem : ∀ {value : JsValue} {keys : List String}, object value keys = true →
      ∀ key ∈ keys, item value key = .ok (value.get key) := fun h _ hkey => item_of_object h hkey
  have hshape : unexpectedShape feature (feature.get "geometry") (feature.get "properties") =
      .ok false := by
    unfold unexpectedShape
    rw [keysDiffer_of_object hkeys (nodup_of_mem (by simp [vocabulary])),
      keysDiffer_of_object hpoint (nodup_of_mem (by simp [vocabulary])),
      keysDiffer_of_object hproperties (nodup_of_mem (by simp [vocabulary])),
      hitem hkeys "type" (by simp [featureKeys]), hitem hpoint "type" (by simp [pointKeys]),
      hitem hpoint "coordinates" (by simp [pointKeys]), htype, hpointType, hcoordinates]
    simp [bind, Except.bind, JsValue.is, JsValue.isArray, JsValue.items]
  have hvalues : propertyKeys.mapM (item (feature.get "properties")) =
      .ok (propertyKeys.map (feature.get "properties").get) := by
    have hmapM : ∀ keys : List String, keys ⊆ propertyKeys →
        keys.mapM (item (feature.get "properties")) =
          .ok (keys.map (feature.get "properties").get) := by
      intro keys
      induction keys with
      | nil => exact fun _ => rfl
      | cons key keys ih =>
        intro hsub
        obtain ⟨hkey, hrest⟩ := List.cons_subset.mp hsub
        rw [List.mapM_cons, hitem hproperties key hkey, ih hrest]
        rfl
    exact hmapM _ (List.Subset.refl _)
  unfold publicationRow
  rw [hitem hkeys "geometry" (by simp [featureKeys]),
    hitem hkeys "properties" (by simp [featureKeys]),
    hitem hkeys "id" (by simp [featureKeys])]
  simp only [bind, Except.bind, hshape, hitem hpoint "coordinates" (by simp [pointKeys]), hvalues]
  rw [rowOf, hcoordinates]
  rfl

/-- A row that is decoded is the same feature. -/
theorem same_featureOf {feature : JsValue} (h : Shaped feature) :
    Same (featureOf (rowOf feature)) feature := by
  obtain ⟨hkeys, htype, hpoint, hpointType, ⟨a, b, hcoordinates⟩, hproperties⟩ := h
  have hgeometry : Same (.object [(js "type", .string (js "Point")),
      (js "coordinates", .array [a, b])]) (feature.get "geometry") := by
    have hsame := same_of_object hpoint (nodup_of_mem (by simp [vocabulary]))
    rwa [Snapshot.pointKeys, List.map_cons, List.map_cons, List.map_nil, hpointType,
      hcoordinates] at hsame
  have hprops := same_of_object hproperties (nodup_of_mem (by simp [vocabulary]))
  have hfeature := same_of_object hkeys (nodup_of_mem (by simp [vocabulary]))
  rw [Snapshot.featureKeys, List.map_cons, List.map_cons, List.map_cons, List.map_cons,
    List.map_nil, htype] at hfeature
  refine .trans ?_ hfeature
  rw [rowOf, hcoordinates]
  refine .trans (.member (js "geometry") [(js "type", .string (js "Feature")),
    (js "id", feature.get "id")] _ hgeometry) ?_
  exact .member (js "properties") [(js "type", .string (js "Feature")),
    (js "id", feature.get "id"), (js "geometry", feature.get "geometry")] [] hprops

theorem eq_octuple {value : JsValue} (h : value.isArray = true)
    (hlength : value.items.length = 8) :
    ∃ a b c d e f g i, value = .array [a, b, c, d, e, f, g, i] := by
  rw [value.eq_array h]
  generalize value.items = items at hlength ⊢
  rcases items with _ | ⟨a, _ | ⟨b, _ | ⟨c, _ | ⟨d, _ | ⟨e, _ | ⟨f, _ | ⟨g, _ | ⟨i, l⟩⟩⟩⟩⟩⟩⟩⟩
  all_goals simp only [List.length_cons, List.length_nil, Nat.reduceAdd, Nat.reduceEqDiff,
    List.length_eq_zero_iff] at hlength
  subst hlength
  exact ⟨a, b, c, d, e, f, g, i, rfl⟩

theorem shaped_featureOf (row : JsValue) : Shaped (featureOf row) where
  keys := by simp [object, featureOf, featureKeys, List.lookup_cons]
  type := by simp [featureOf, JsValue.get]
  pointKeys := by simp [object, featureOf, JsValue.get, Snapshot.pointKeys, List.lookup_cons]
  pointType := by simp [featureOf, JsValue.get, List.lookup_cons]
  coordinates := ⟨row.nth 1, row.nth 2, by simp [featureOf, JsValue.get, List.lookup_cons]⟩
  propertyKeys := by
    simp [object, featureOf, JsValue.get, Snapshot.propertyKeys, List.lookup_cons]

theorem get_featureOf (row : JsValue) : (featureOf row).get "id" = row.nth 0 ∧
    ((featureOf row).get "geometry").get "coordinates" = .array [row.nth 1, row.nth 2] ∧
    ((featureOf row).get "properties").get "route_label" = row.nth 3 ∧
    ((featureOf row).get "properties").get "mode" = row.nth 4 ∧
    ((featureOf row).get "properties").get "color" = row.nth 5 ∧
    ((featureOf row).get "properties").get "bearing" = row.nth 6 ∧
    ((featureOf row).get "properties").get "recorded_at" = row.nth 7 := by
  simp [featureOf, JsValue.get, List.lookup_cons]

theorem rowOf_featureOf (row : JsValue) : rowOf (featureOf row) =
    .array [row.nth 0, row.nth 1, row.nth 2, row.nth 3, row.nth 4, row.nth 5, row.nth 6,
      row.nth 7] := by
  obtain ⟨hid, hcoordinates, hlabel, hmode, hcolor, hbearing, hrecorded⟩ := get_featureOf row
  rw [rowOf, hid, hcoordinates, hlabel, hmode, hcolor, hbearing, hrecorded]
  rfl

/-- A row that is accepted is that of its feature, which is accepted. -/
theorem tuple_accepted {row : JsValue} {timestamps : Option Timestamps}
    (h : (vehicleTuple row timestamps).1 = true) :
    rowOf (featureOf row) = row ∧
      vehicle (featureOf row) timestamps = vehicleTuple row timestamps := by
  rw [vehicleTuple] at h ⊢
  split_ifs at h ⊢ with hfields
  simp only [Bool.and_eq_true, beq_iff_eq] at hfields
  obtain ⟨⟨⟨⟨⟨⟨⟨⟨harray, hlength⟩, hid⟩, hlon⟩, hlat⟩, hlabel⟩, hmode⟩, hcolor⟩, hbearing⟩ :=
    hfields
  obtain ⟨a, b, c, d, e, f, g, i, rfl⟩ := eq_octuple harray hlength
  refine ⟨rowOf_featureOf _, ?_⟩
  obtain ⟨hgetId, hgetCoordinates, hgetLabel, hgetMode, hgetColor, hgetBearing, hgetRecorded⟩ :=
    get_featureOf (.array [a, b, c, d, e, f, g, i])
  have hshaped := shaped_featureOf (.array [a, b, c, d, e, f, g, i])
  dsimp only [vehicle]
  rw [hgetId, hgetCoordinates, hgetLabel, hgetMode, hgetColor, hgetBearing, hgetRecorded,
    hshaped.keys, hshaped.type, hshaped.pointKeys, hshaped.pointType, hshaped.propertyKeys]
  refine if_pos ?_
  simp only [Bool.and_eq_true, beq_iff_eq, JsValue.is_iff]
  exact ⟨⟨⟨⟨trivial, trivial⟩, hid⟩, ⟨⟨⟨⟨trivial, trivial⟩, rfl⟩, rfl⟩, hlon⟩, hlat⟩,
    ⟨⟨⟨trivial, hlabel⟩, hmode⟩, hcolor⟩, hbearing⟩

/-! ### The loops -/

theorem acceptFeatures_cons {feature : JsValue} {features : List JsValue}
    {timestamps : Option Timestamps} {ids : List JsString} :
    acceptFeatures (feature :: features) timestamps ids = true ↔
      (vehicle feature timestamps).1 = true ∧ (feature.get "id").text ∉ ids ∧
        acceptFeatures features (vehicle feature timestamps).2
          ((feature.get "id").text :: ids) = true := by
  rw [acceptFeatures]
  by_cases hids : (feature.get "id").text ∈ ids
  · simp [hids]
  · by_cases hvehicle : (vehicle feature timestamps).1 = true
    · simp [hids, hvehicle]
    · simp [hids, hvehicle]

theorem decodeRows_cons {row : JsValue} {rows : List JsValue} {timestamps : Option Timestamps}
    {ids : List JsString} {features : List JsValue} :
    decodeRows (row :: rows) timestamps ids = some features ↔
      (vehicleTuple row timestamps).1 = true ∧ (row.nth 0).text ∉ ids ∧
        ∃ rest, decodeRows rows (vehicleTuple row timestamps).2 ((row.nth 0).text :: ids) =
          some rest ∧ features = featureOf row :: rest := by
  rw [decodeRows]
  by_cases hids : (row.nth 0).text ∈ ids
  · simp [hids]
  · by_cases htuple : (vehicleTuple row timestamps).1 = true
    · simp [hids, htuple, eq_comm]
    · simp [hids, htuple]

/-- Features that are accepted: their rows are decoded to the same features. -/
theorem decodeRows_rowOf {features : List JsValue} {timestamps : Option Timestamps}
    {ids : List JsString} (h : acceptFeatures features timestamps ids = true) :
    decodeRows (features.map rowOf) timestamps ids =
        some (features.map fun feature => featureOf (rowOf feature)) ∧
      ∀ feature ∈ features, Shaped feature := by
  induction features generalizing timestamps ids with
  | nil => exact ⟨rfl, nofun⟩
  | cons feature features ih =>
    obtain ⟨hvehicle, hid, hrest⟩ := acceptFeatures_cons.mp h
    obtain ⟨hshaped, htuple⟩ := vehicle_accepted hvehicle
    obtain ⟨hdecode, hall⟩ := ih hrest
    refine ⟨?_, List.forall_mem_cons.mpr ⟨hshaped, hall⟩⟩
    rw [List.map_cons, decodeRows_cons, htuple]
    exact ⟨hvehicle, hid, _, hdecode, rfl⟩

/-- Rows that are decoded: their features are accepted. -/
theorem acceptFeatures_of_decodeRows {rows features : List JsValue}
    {timestamps : Option Timestamps} {ids : List JsString}
    (h : decodeRows rows timestamps ids = some features) :
    acceptFeatures features timestamps ids = true ∧ features.map rowOf = rows ∧
      ∀ feature ∈ features, Shaped feature := by
  induction rows generalizing features timestamps ids with
  | nil =>
    cases h
    exact ⟨rfl, rfl, nofun⟩
  | cons row rows ih =>
    obtain ⟨htuple, hid, rest, hrest, rfl⟩ := decodeRows_cons.mp h
    obtain ⟨hrow, hvehicle⟩ := tuple_accepted htuple
    obtain ⟨haccept, hrows, hshaped⟩ := ih hrest
    have hgetId := (get_featureOf row).1
    refine ⟨acceptFeatures_cons.mpr ?_, ?_, ?_⟩
    · rw [hvehicle, hgetId]
      exact ⟨htuple, hid, haccept⟩
    · rw [List.map_cons, hrow, hrows]
    · exact List.forall_mem_cons.mpr ⟨shaped_featureOf row, hshaped⟩

/-! ### The envelope -/

/-- What `envelope` says of the two objects that the forms differ in. -/
theorem envelope_keys {value : JsValue} (h : envelope value = true) :
    object value snapshotKeys = true ∧ object (value.get "vehicles") vehiclesKeys = true ∧
      (value.get "vehicles").get "features" = .array (features value) := by
  simp only [envelope, vehicleCollection, Bool.and_eq_true] at h
  obtain ⟨⟨⟨⟨⟨⟨hkeys, -⟩, -⟩, hvehicles⟩, -⟩, -⟩, -⟩ := h
  obtain ⟨⟨⟨⟨⟨⟨⟨⟨hobject, -⟩, -⟩, -⟩, -⟩, -⟩, harray⟩, -⟩, -⟩ := hvehicles
  exact ⟨hkeys, hobject, JsValue.eq_array harray⟩

theorem features_setFeatures {value : JsValue} (h : envelope value = true) (l : List JsValue) :
    features (setFeatures value l) = l := by
  obtain ⟨hkeys, hvehicles, -⟩ := envelope_keys h
  rw [features, setFeatures, get_set hkeys, get_set hvehicles, JsValue.items]

theorem setFeatures_setFeatures {value : JsValue} (h : envelope value = true)
    (l m : List JsValue) : setFeatures (setFeatures value l) m = setFeatures value m := by
  obtain ⟨hkeys, -, -⟩ := envelope_keys h
  rw [setFeatures, setFeatures, setFeatures, get_set hkeys, JsValue.set_set, JsValue.set_set]

theorem setFeatures_self {value : JsValue} (h : envelope value = true) :
    setFeatures value (features value) = value := by
  obtain ⟨hkeys, hvehicles, hfeatures⟩ := envelope_keys h
  rw [setFeatures, ← hfeatures, set_get hvehicles (by simp [vehiclesKeys]),
    set_get hkeys (by simp [snapshotKeys])]

theorem same_setFeatures {value : JsValue} (h : envelope value = true) {l : List JsValue}
    (hl : List.Forall₂ Same l (features value)) : Same (setFeatures value l) value := by
  obtain ⟨hkeys, hvehicles, hfeatures⟩ := envelope_keys h
  refine same_set hkeys (by simp [snapshotKeys]) (same_set hvehicles (by simp [vehiclesKeys]) ?_)
  rw [hfeatures]
  exact Same.array hl

/-- The envelope does not look at the features, except for their number. -/
theorem envelope_setFeatures {value : JsValue} (h : envelope value = true) {l : List JsValue}
    (hlength : l.length = (features value).length) : envelope (setFeatures value l) = true := by
  obtain ⟨hkeys, hvehicles, hfeatures⟩ := envelope_keys h
  have hne : ∀ key ∈ ["schema_version", "generated_at", "health", "statistics",
      "public_layer_issues"], (setFeatures value l).get key = value.get key := by
    intro key hkey
    refine JsValue.get_set_ne ?_
    rintro rfl
    simp at hkey
  have hvehiclesNe : ∀ key ∈ ["type", "observed_at", "source_at", "records_in_source",
      "omitted_records"], ((setFeatures value l).get "vehicles").get key =
        (value.get "vehicles").get key := by
    intro key hkey
    rw [setFeatures, get_set hkeys]
    refine JsValue.get_set_ne ?_
    rintro rfl
    simp at hkey
  have hset : ((setFeatures value l).get "vehicles").get "features" = .array l := by
    rw [setFeatures, get_set hkeys, get_set hvehicles]
  have hkeys' : object (setFeatures value l) snapshotKeys = true :=
    object_set hkeys (by simp [snapshotKeys]) _
  have hvehicles' : object ((setFeatures value l).get "vehicles") vehiclesKeys = true := by
    rw [setFeatures, get_set hkeys]
    exact object_set hvehicles (by simp [vehiclesKeys]) _
  have hcollection : vehicleCollection (value.get "vehicles") = true →
      vehicleCollection ((setFeatures value l).get "vehicles") = true := by
    intro hvalue
    simp only [vehicleCollection, Bool.and_eq_true] at hvalue ⊢
    obtain ⟨⟨⟨⟨⟨⟨⟨⟨-, htype⟩, hobserved⟩, hsource⟩, hrecords⟩, homitted⟩, -⟩, hmany⟩, hsum⟩ :=
      hvalue
    rw [hfeatures, JsValue.items, ← hlength] at hmany hsum
    rw [hset, hvehiclesNe "type" (by simp), hvehiclesNe "observed_at" (by simp),
      hvehiclesNe "source_at" (by simp),
      hvehiclesNe "records_in_source" (by simp),
      hvehiclesNe "omitted_records" (by simp)]
    exact ⟨⟨⟨⟨⟨⟨⟨⟨hvehicles', htype⟩, hobserved⟩, hsource⟩, hrecords⟩, homitted⟩, rfl⟩, hmany⟩,
      hsum⟩
  simp only [envelope, Bool.and_eq_true] at h ⊢
  obtain ⟨⟨⟨⟨⟨⟨-, hversion⟩, hgenerated⟩, hcollected⟩, hhealth⟩, hstatistics⟩, hissues⟩ := h
  rw [hne "schema_version" (by simp), hne "generated_at" (by simp),
    hne "health" (by simp), hne "statistics" (by simp),
    hne "public_layer_issues" (by simp)]
  exact ⟨⟨⟨⟨⟨⟨hkeys', hversion⟩, hgenerated⟩, hcollection hcollected⟩, hhealth⟩, hstatistics⟩,
    hissues⟩

/-! ### Both directions -/

/-- Acceptance, with the form of the features apart. -/
theorem isSnapshot_iff {value : JsValue} : isSnapshot value = true ↔
    envelope value = true ∧ acceptFeatures (features value) (some []) [] = true := by
  rw [isSnapshot, Bool.and_eq_true]

theorem decode_iff {value s : JsValue} : decodeCompactSnapshot value = some s ↔
    envelope value = true ∧ ∃ l, decodeRows (features value) (some []) [] = some l ∧
      s = setFeatures value l := by
  unfold decodeCompactSnapshot
  split_ifs with h
  · rw [Option.map_eq_some_iff]
    simp [h, eq_comm]
  · simp [h]

theorem compact_of_shaped {s : JsValue} (h : envelope s = true)
    (hshaped : ∀ feature ∈ features s, Shaped feature) :
    compact s = .ok (setFeatures s ((features s).map rowOf)) := by
  obtain ⟨hkeys, hvehicles, hfeatures⟩ := envelope_keys h
  have hrows : ∀ l : List JsValue, (∀ feature ∈ l, Shaped feature) →
      l.mapM publicationRow = .ok (l.map rowOf) := by
    intro l
    induction l with
    | nil => exact fun _ => rfl
    | cons feature l ih =>
      intro hall
      obtain ⟨hfeature, hrest⟩ := List.forall_mem_cons.mp hall
      rw [List.mapM_cons, publicationRow_of_shaped hfeature, ih hrest]
      rfl
  unfold compact
  rw [item_of_object hkeys (by simp [snapshotKeys])]
  simp only [bind, Except.bind, item_of_object hvehicles (by simp [vehiclesKeys] : "features" ∈ _),
    hfeatures, elements, hrows _ hshaped]

/-- What the exporter writes of an accepted snapshot is decoded to the same snapshot. -/
theorem decode_compact {s : JsValue} (h : isSnapshot s = true) :
    ∃ p, compact s = .ok p ∧ ∃ s', decodeCompactSnapshot p = some s' ∧ Same s' s := by
  obtain ⟨henvelope, haccept⟩ := isSnapshot_iff.mp h
  obtain ⟨hdecode, hshaped⟩ := decodeRows_rowOf haccept
  have hlength : ((features s).map rowOf).length = (features s).length := List.length_map _
  have hdecode' : decodeRows (features (setFeatures s ((features s).map rowOf))) (some []) [] =
      some ((features s).map fun feature => featureOf (rowOf feature)) := by
    rw [features_setFeatures henvelope]
    exact hdecode
  refine ⟨_, compact_of_shaped henvelope hshaped, setFeatures s
    ((features s).map fun feature => featureOf (rowOf feature)), decode_iff.mpr
    ⟨envelope_setFeatures henvelope hlength, _, hdecode', ?_⟩, same_setFeatures henvelope ?_⟩
  · rw [setFeatures_setFeatures henvelope]
  · rw [List.forall₂_map_left_iff, List.forall₂_same]
    exact fun feature hfeature => same_featureOf (hshaped feature hfeature)

/-- What is decoded is accepted, and encoded to what it was. -/
theorem compact_of_decode {value s : JsValue} (h : decodeCompactSnapshot value = some s) :
    isSnapshot s = true ∧ compact s = .ok value := by
  obtain ⟨henvelope, l, hl, rfl⟩ := decode_iff.mp h
  obtain ⟨haccept, hrows, hshaped⟩ := acceptFeatures_of_decodeRows hl
  have hfeatures := features_setFeatures henvelope l
  have hlength : l.length = (features value).length := by
    rw [← hrows, List.length_map]
  have henvelope' := envelope_setFeatures henvelope hlength
  refine ⟨isSnapshot_iff.mpr ⟨henvelope', hfeatures.symm ▸ haccept⟩, ?_⟩
  rw [compact_of_shaped henvelope' (hfeatures.symm ▸ hshaped), hfeatures, hrows,
    setFeatures_setFeatures henvelope, setFeatures_self henvelope]

/-! ### The cache of timestamps -/

/-- The cache holds results of the check. -/
def Faithful (timestamps : Option Timestamps) : Prop :=
  ∀ text valid, timestamps.bind (·.lookup text) = some valid → valid = isTimestamp text

theorem timestamp_faithful {timestamps : Option Timestamps} (h : Faithful timestamps)
    (value : JsValue) (nullable : Bool) :
    (timestamp value nullable timestamps).1 = uncached value nullable ∧
      Faithful (timestamp value nullable timestamps).2 := by
  cases value with
  | string text =>
    cases hcached : timestamps.bind (·.lookup text) with
    | some valid =>
      simp only [timestamp, hcached]
      exact ⟨h text valid hcached, h⟩
    | none =>
      simp only [timestamp, hcached]
      refine ⟨rfl, fun text' valid hvalid => ?_⟩
      cases timestamps with
      | none => cases hvalid
      | some cache =>
        rw [Option.map_some, Option.bind_some, List.lookup_cons] at hvalid
        by_cases htext : text' = text
        · rw [htext, beq_self_eq_true] at hvalid
          cases hvalid
          rw [htext]
        · rw [beq_false_of_ne htext] at hvalid
          exact h text' valid hvalid
  | _ => exact ⟨rfl, h⟩

theorem vehicleTuple_faithful {timestamps : Option Timestamps} (h : Faithful timestamps)
    (row : JsValue) : (vehicleTuple row timestamps).1 = (vehicleTuple row none).1 ∧
      Faithful (vehicleTuple row timestamps).2 := by
  rw [vehicleTuple, vehicleTuple]
  split_ifs
  · exact timestamp_faithful h _ _
  · exact ⟨rfl, h⟩

/-- Rows that are decoded are accepted without the cache. -/
theorem accepted_of_decodeRows {rows features : List JsValue} {timestamps : Option Timestamps}
    {ids : List JsString} (hfaithful : Faithful timestamps)
    (h : decodeRows rows timestamps ids = some features) :
    ∀ row ∈ rows, (vehicleTuple row none).1 = true := by
  induction rows generalizing features timestamps ids with
  | nil => exact nofun
  | cons row rows ih =>
    obtain ⟨htuple, -, rest, hrest, -⟩ := decodeRows_cons.mp h
    obtain ⟨hsame, hnext⟩ := vehicleTuple_faithful hfaithful row
    exact List.forall_mem_cons.mpr ⟨hsame ▸ htuple, ih hnext hrest⟩

/-! ### Encoding -/

theorem lt_of_isDigit {u : UInt16} (h : isDigit u = true) : u < 0x80 := by
  simp only [isDigit, Bool.and_eq_true, decide_eq_true_eq] at h
  have hle : u.toNat ≤ 57 := h.2
  exact UInt16.lt_iff_toNat_lt.mpr (lt_of_le_of_lt hle (by decide))

theorem lt_of_isHexDigit {u : UInt16} (h : isHexDigit u = true) : u < 0x80 := by
  simp only [isHexDigit, Bool.or_eq_true, Bool.and_eq_true, decide_eq_true_eq] at h
  rcases h with ⟨-, h⟩ | h
  · have hle : u.toNat ≤ 102 := h
    exact UInt16.lt_iff_toNat_lt.mpr (lt_of_le_of_lt hle (by decide))
  · exact lt_of_isDigit h

/-- A text that matches a pattern is ASCII, as the pattern is. -/
theorem lt_of_matchesPattern {pattern : String} (hpattern : pattern.toList.all (·.toNat < 0x80))
    {text : JsString} (h : matchesPattern pattern text = true) : ∀ u ∈ text, u < 0x80 := by
  simp only [matchesPattern, Bool.and_eq_true, beq_iff_eq, List.all_eq_true] at h hpattern
  obtain ⟨hlength, hall⟩ := h
  intro u hu
  obtain ⟨i, hi, rfl⟩ := List.getElem_of_mem hu
  have hi' : i < pattern.toList.length := hlength ▸ hi
  have hmem : (pattern.toList[i], text[i]) ∈ pattern.toList.zip text := by
    rw [← List.getElem_zip (h := by rw [List.length_zip]; exact lt_min hi' hi)]
    exact List.getElem_mem _
  have hunit := hall _ hmem
  dsimp only at hunit
  split_ifs at hunit
  · exact lt_of_isDigit hunit
  · have hchar := hpattern _ (List.getElem_mem hi')
    rw [decide_eq_true_eq] at hchar
    rw [beq_iff_eq.mp hunit, UInt16.lt_iff_toNat_lt, UInt16.toNat_ofNat']
    exact lt_of_le_of_lt (Nat.mod_le _ _) hchar

section Encoding

variable {number : Option ℚ → Bool} {string : JsString → Bool}
  (hnumber : ∀ q, number (some q) = true) (hstring : ∀ s, (∀ u ∈ s, u < 0x80) → string s = true)

include hstring in
theorem string_js {names : List String} (h : names ∈ vocabulary) {name : String}
    (hname : name ∈ names) : string (js name) = true :=
  hstring _ (ascii_of_mem h hname)

include hstring in
theorem all_object {value : JsValue} {keys : List String} (hobject : object value keys = true)
    (hkeys : keys ∈ vocabulary) (h : ∀ key ∈ keys, (value.get key).all number string = true) :
    value.all number string = true := by
  rw [all_of_object hobject (nodup_of_mem hkeys), List.all_eq_true]
  exact fun key hkey => Bool.and_eq_true_iff.mpr ⟨string_js hstring hkeys hkey, h key hkey⟩

include hstring in
theorem all_oneOf {value : JsValue} {names : List String} (hnames : names ∈ vocabulary)
    (h : oneOf names value = true) : value.all number string = true := by
  obtain ⟨name, hname, his⟩ := List.any_eq_true.mp h
  rw [JsValue.is_iff.mp his]
  exact string_js hstring hnames hname

include hstring in
theorem all_uncached {value : JsValue} {nullable : Bool} (h : uncached value nullable = true) :
    value.all number string = true := by
  cases value with
  | null => rfl
  | string text =>
    have hvalid : isTimestamp text = true := h
    rw [isTimestamp, Bool.and_eq_true] at hvalid
    exact hstring text (lt_of_matchesPattern (by decide) hvalid.1)
  | _ => cases h

include hstring in
theorem all_date {value : JsValue} (h : date value = true) : value.all number string = true := by
  cases value with
  | string text =>
    rw [date, Bool.and_eq_true] at h
    exact hstring text (lt_of_matchesPattern (by decide) h.1)
  | _ => cases h

include hnumber in
theorem all_numberValue {value : JsValue} {q : ℚ} (h : value.numberValue = some q) :
    value.all number string = true := by
  cases value with
  | number n =>
    cases h
    exact hnumber q
  | _ => cases h

include hnumber in
theorem all_count {value : JsValue} (h : count value = true) : value.all number string = true := by
  cases hvalue : value.numberValue with
  | some q => exact all_numberValue hnumber hvalue
  | none =>
    rw [count, hvalue] at h
    cases h

include hnumber in
theorem all_finite {value : JsValue} {min max : ℚ} (h : finite value min max = true) :
    value.all number string = true := by
  cases hvalue : value.numberValue with
  | some q => exact all_numberValue hnumber hvalue
  | none =>
    rw [finite, hvalue] at h
    cases h

theorem all_isNull {value : JsValue} (h : value.isNull = true) :
    value.all number string = true := by
  rw [JsValue.isNull_iff.mp h]
  rfl

include hnumber in
theorem all_nullableCount {value : JsValue} (h : nullableCount value = true) :
    value.all number string = true := by
  rcases Bool.or_eq_true_iff.mp h with h | h
  · exact all_isNull h
  · exact all_count hnumber h

theorem all_array {value : JsValue} (harray : value.isArray = true)
    (h : ∀ item ∈ value.items, item.all number string = true) :
    value.all number string = true := by
  rw [value.eq_array harray, JsValue.all, allItems_eq, List.all_eq_true]
  exact h

include hstring in
theorem all_isId {value : JsValue} (h : isId value = true) : value.all number string = true := by
  cases value with
  | string text =>
    rw [isId, Bool.and_eq_true, List.all_eq_true] at h
    exact hstring text fun u hu => lt_of_isHexDigit (h.2 u hu)
  | _ => cases h

include hstring in
theorem all_isColor {value : JsValue} (h : isColor value = true) :
    value.all number string = true := by
  unfold isColor at h
  split at h
  · rename_i u text
    simp only [Bool.and_eq_true, beq_iff_eq, List.all_eq_true] at h
    obtain ⟨⟨rfl, -⟩, hall⟩ := h
    refine hstring _ (List.forall_mem_cons.mpr ⟨by decide, fun u hu => ?_⟩)
    exact lt_of_isHexDigit (hall u hu)
  · cases h

theorem all_isLabel {value : JsValue} (h : isLabel value = true)
    (htext : string value.text = true) : value.all number string = true := by
  cases value with
  | string text => exact htext
  | _ => cases h

include hnumber in
theorem all_isBearing {value : JsValue} (h : isBearing value = true) :
    value.all number string = true := by
  rcases Bool.or_eq_true_iff.mp h with h | h
  · exact all_isNull h
  · exact all_finite hnumber h

include hnumber hstring in
theorem all_vehicleTuple {row : JsValue} (h : (vehicleTuple row none).1 = true)
    (hlabel : string (row.nth 3).text = true) : row.all number string = true := by
  rw [vehicleTuple] at h
  split_ifs at h with hfields
  simp only [Bool.and_eq_true, beq_iff_eq] at hfields
  obtain ⟨⟨⟨⟨⟨⟨⟨⟨harray, hlength⟩, hid⟩, hlon⟩, hlat⟩, hislabel⟩, hmode⟩, hcolor⟩, hbearing⟩ :=
    hfields
  obtain ⟨a, b, c, d, e, f, g, i, rfl⟩ := eq_octuple harray hlength
  refine all_array rfl ?_
  simp only [JsValue.items, List.forall_mem_cons]
  exact ⟨all_isId hstring hid, all_finite hnumber hlon, all_finite hnumber hlat,
    all_isLabel hislabel hlabel, all_oneOf hstring (by simp [vocabulary]) hmode,
    all_isColor hstring hcolor, all_isBearing hnumber hbearing, all_uncached hstring h, nofun⟩

include hnumber hstring in
theorem all_feedHealth {value : JsValue} (h : feedHealth value = true) :
    value.all number string = true := by
  simp only [feedHealth, Bool.and_eq_true, Bool.or_eq_true] at h
  obtain ⟨⟨⟨⟨⟨⟨⟨⟨hobject, hstate⟩, hobserved⟩, hsource⟩, hcadence⟩, hentities⟩, harray⟩, -⟩,
    hissues⟩ := h
  refine all_object hstring hobject (by simp [vocabulary]) ?_
  simp only [List.forall_mem_cons]
  refine ⟨all_oneOf hstring (by simp [vocabulary]) hstate, all_uncached hstring hobserved,
    all_uncached hstring hsource, hcadence.elim all_isNull (all_finite hnumber),
    all_nullableCount hnumber hentities, all_array harray fun item hitem => ?_, nofun⟩
  exact all_oneOf hstring (by simp [vocabulary]) (List.all_eq_true.mp hissues item hitem)

include hnumber hstring in
theorem all_dayCounts {value : JsValue} (h : dayCounts value = true) :
    value.all number string = true := by
  simp only [dayCounts, Bool.and_eq_true] at h
  obtain ⟨⟨⟨hobject, hexpected⟩, hrecorded⟩, hdata⟩ := h
  refine all_object hstring hobject (by simp [vocabulary]) ?_
  simp only [List.forall_mem_cons]
  exact ⟨all_nullableCount hnumber hexpected, all_nullableCount hnumber hrecorded,
    all_nullableCount hnumber hdata, nofun⟩

include hstring in
/-- The three feeds of an object. -/
theorem all_feeds {feeds : JsValue} {check : JsValue → Bool}
    (h : (object feeds feedNames && feedNames.all fun name => check (feeds.get name)) = true)
    (hcheck : ∀ value, check value = true → value.all number string = true) :
    feeds.all number string = true := by
  obtain ⟨hobject, hall⟩ := Bool.and_eq_true_iff.mp h
  refine all_object hstring hobject (by simp [vocabulary]) fun name hname => ?_
  exact hcheck _ (List.all_eq_true.mp hall name hname)

include hnumber hstring in
theorem all_vehicleCollection {vehicles : JsValue} (h : vehicleCollection vehicles = true)
    (hrows : ∀ row ∈ (vehicles.get "features").items, row.all number string = true) :
    vehicles.all number string = true := by
  simp only [vehicleCollection, Bool.and_eq_true, JsValue.is_iff] at h
  obtain ⟨⟨⟨⟨⟨⟨⟨⟨hobject, htype⟩, hobserved⟩, hsource⟩, hrecords⟩, homitted⟩, harray⟩, -⟩, -⟩ := h
  have hcollection : string (js "FeatureCollection") = true :=
    string_js hstring (by simp [vocabulary] : ["Feature", "FeatureCollection", "Point"] ∈ _)
      (by simp)
  refine all_object hstring hobject (by simp [vocabulary, vehiclesKeys]) ?_
  simp only [List.forall_mem_cons]
  exact ⟨htype ▸ hcollection, all_uncached hstring hobserved, all_uncached hstring hsource,
    all_count hnumber hrecords, all_count hnumber homitted, all_array harray hrows, nofun⟩

include hnumber hstring in
theorem all_healthSection {health : JsValue} (h : healthSection health = true) :
    health.all number string = true := by
  simp only [healthSection, Bool.and_eq_true] at h
  obtain ⟨⟨⟨⟨hobject, hstate⟩, hobserved⟩, hfeeds⟩, ⟨⟨⟨hmaintenance, hmstate⟩, harchive⟩,
    hpending⟩⟩ := h
  refine all_object hstring hobject (by simp [vocabulary]) ?_
  simp only [List.forall_mem_cons]
  refine ⟨all_oneOf hstring (by simp [vocabulary]) hstate, all_uncached hstring hobserved,
    all_feeds hstring (Bool.and_eq_true_iff.mpr hfeeds) fun _ => all_feedHealth hnumber hstring,
    all_object hstring hmaintenance (by simp [vocabulary]) ?_, nofun⟩
  simp only [List.forall_mem_cons]
  refine ⟨all_oneOf hstring (by simp [vocabulary]) hmstate, ?_, all_count hnumber hpending, nofun⟩
  cases hvalue : (health.get "maintenance").get "archive_enabled" with
  | bool b => rfl
  | _ =>
    rw [hvalue] at harchive
    cases harchive

include hnumber hstring in
theorem all_latestDay {latest : JsValue} (h : latestDay latest = true) :
    latest.all number string = true := by
  simp only [latestDay, Bool.and_eq_true] at h
  obtain ⟨⟨⟨hobject, hdate⟩, hquality⟩, hfeeds⟩ := h
  refine all_object hstring hobject (by simp [vocabulary]) ?_
  simp only [List.forall_mem_cons]
  exact ⟨all_date hstring hdate, all_oneOf hstring (by simp [vocabulary]) hquality,
    all_feeds hstring (Bool.and_eq_true_iff.mpr hfeeds) fun _ => all_dayCounts hnumber hstring,
    nofun⟩

include hnumber hstring in
theorem all_statisticsSection {stats : JsValue} (h : statisticsSection stats = true) :
    stats.all number string = true := by
  simp only [statisticsSection, Bool.and_eq_true, Bool.or_eq_true, List.all_eq_true] at h
  obtain ⟨⟨⟨⟨⟨hobject, hasOf⟩, hsince⟩, hlast⟩, hcounts⟩, hlatest⟩ := h
  simp only [List.forall_mem_cons] at hcounts
  obtain ⟨hevidenced, hverified, hpolls, hrows, hraw, -⟩ := hcounts
  refine all_object hstring hobject (by simp [vocabulary]) ?_
  simp only [List.forall_mem_cons]
  exact ⟨all_uncached hstring hasOf, all_uncached hstring hsince, all_count hnumber hevidenced,
    all_count hnumber hverified, hlast.elim all_isNull (all_date hstring),
    all_count hnumber hpolls, all_count hnumber hrows, all_count hnumber hraw,
    hlatest.elim all_isNull (all_latestDay hnumber hstring), nofun⟩

include hnumber hstring in
theorem all_envelope {value : JsValue} (h : envelope value = true)
    (hrows : ∀ row ∈ features value, row.all number string = true) :
    value.all number string = true := by
  simp only [envelope, Bool.and_eq_true, beq_iff_eq] at h
  obtain ⟨⟨⟨⟨⟨⟨hobject, hversion⟩, hgenerated⟩, hvehicles⟩, hhealth⟩, hstatistics⟩, hissues⟩ := h
  refine all_object hstring hobject (by simp [vocabulary, snapshotKeys]) ?_
  simp only [List.forall_mem_cons]
  refine ⟨all_numberValue hnumber hversion, all_uncached hstring hgenerated,
    all_vehicleCollection hnumber hstring hvehicles hrows,
    all_healthSection hnumber hstring hhealth,
    all_statisticsSection hnumber hstring hstatistics, ?_, nofun⟩
  simp only [publicLayerIssues, Bool.and_eq_true] at hissues
  obtain ⟨⟨harray, -⟩, hall⟩ := hissues
  refine all_array harray fun item hitem => ?_
  exact all_oneOf hstring (by simp [vocabulary]) (List.all_eq_true.mp hall item hitem)

end Encoding

/-- The route labels of a snapshot, in UTF-16. -/
def routeLabels (s : JsValue) : List JsString :=
  (features s).map fun feature => ((feature.get "properties").get "route_label").text

/-- What `dumps` refuses is not there. -/
theorem dumps_compact {s p : JsValue} (h : isSnapshot s = true)
    (hlabels : ∀ label ∈ routeLabels s, isWellFormed label = true) (hp : compact s = .ok p) :
    dumps p = .ok p := by
  obtain ⟨henvelope, haccept⟩ := isSnapshot_iff.mp h
  obtain ⟨hdecode, hshaped⟩ := decodeRows_rowOf haccept
  have hlength : ((features s).map rowOf).length = (features s).length := List.length_map _
  have hall : ∀ {number : Option ℚ → Bool} {string : JsString → Bool},
      (∀ q, number (some q) = true) → (∀ s, (∀ u ∈ s, u < 0x80) → string s = true) →
      (∀ label ∈ routeLabels s, string label = true) → p.all number string = true := by
    intro number string hnumber hstring hlabel
    rw [compact_of_shaped henvelope hshaped, Except.ok.injEq] at hp
    subst hp
    refine all_envelope hnumber hstring (envelope_setFeatures henvelope hlength) ?_
    rw [features_setFeatures henvelope, List.forall_mem_map]
    intro feature hfeature
    have htuple := accepted_of_decodeRows (fun _ _ h => by cases h) hdecode (rowOf feature)
      (List.mem_map_of_mem hfeature)
    exact all_vehicleTuple hnumber hstring htuple (hlabel _ (List.mem_map_of_mem hfeature))
  have hfinite : p.all Option.isSome (fun _ => true) = true :=
    hall (fun _ => rfl) (fun _ _ => rfl) fun _ _ => rfl
  have hwell : p.all (fun _ => true) isWellFormed = true :=
    hall (fun _ => rfl) (fun _ => isWellFormed_of_ascii) hlabels
  rw [dumps, hfinite, hwell]
  rfl

/-- **The two forms accept the same.** What the exporter encodes of an accepted snapshot, whose
route labels have no half of a surrogate pair, is decoded to an equal snapshot; what is decoded from
the compact form is accepted, and its compact form is what it was decoded from. -/
theorem compactForm_bijective :
    (∀ s, isSnapshot s = true → (∀ label ∈ routeLabels s, isWellFormed label = true) →
      ∃ p, encodePublication s = .ok p ∧ compact s = .ok p ∧
        ∃ s', decodeCompactSnapshot p = some s' ∧ Same s' s) ∧
    ∀ value s, decodeCompactSnapshot value = some s →
      isSnapshot s = true ∧ compact s = .ok value := by
  refine ⟨fun s h hlabels => ?_, fun value s h => compact_of_decode h⟩
  obtain ⟨p, hp, hdecoded⟩ := decode_compact h
  refine ⟨p, ?_, hp, hdecoded⟩
  rw [encodePublication, hp]
  exact dumps_compact h hlabels hp

/-! ### A snapshot with one vehicle -/

/-- A string. -/
def text (s : String) : JsValue := .string (js s)

/-- An integer. -/
def integer (n : ℕ) : JsValue := .number (some n)

/-- An object. -/
def fields (members : List (String × JsValue)) : JsValue :=
  .object (members.map fun m => (js m.1, m.2))

/-- A moment. -/
def sampleTime : JsValue := text "2026-01-01T00:00:00Z"

/-- A vehicle with a route label. -/
def sampleVehicle (label : JsString) : JsValue :=
  fields [("type", text "Feature"), ("id", text "0123456789abcdef0123"),
    ("geometry", fields [("type", text "Point"), ("coordinates", .array [integer 19, integer 47])]),
    ("properties", fields [("route_label", .string label), ("mode", text "tram"),
      ("color", text "#ffd800"), ("bearing", .null), ("recorded_at", sampleTime)])]

/-- A feed that has not been seen. -/
def sampleFeed : JsValue :=
  fields [("state", text "unknown"), ("observed_at", .null), ("source_at", .null),
    ("cadence_seconds", integer 30), ("entities", .null), ("issues", .array [text "absent"])]

/-- A snapshot with that vehicle. -/
def sampleSnapshot (label : JsString) : JsValue :=
  fields [("schema_version", integer 1), ("generated_at", sampleTime),
    ("vehicles", fields [("type", text "FeatureCollection"), ("observed_at", sampleTime),
      ("source_at", sampleTime), ("records_in_source", integer 1), ("omitted_records", integer 0),
      ("features", .array [sampleVehicle label])]),
    ("health", fields [("state", text "unknown"), ("observed_at", .null),
      ("feeds", fields [("vehiclepositions", sampleFeed), ("tripupdates", sampleFeed),
        ("alerts", sampleFeed)]),
      ("maintenance", fields [("state", text "unknown"), ("archive_enabled", .bool false),
        ("pending_days", integer 0)])]),
    ("statistics", fields [("as_of", sampleTime), ("evidenced_since", .null),
      ("evidenced_days", integer 0), ("verified_days", integer 0), ("last_verified_date", .null),
      ("polls_recorded", integer 0), ("event_rows", integer 0), ("raw_snapshots", integer 0),
      ("latest_day", .null)]),
    ("public_layer_issues", .array [])]

/-- A label in ASCII. -/
theorem compactForm_bijective_sample :
    ∃ p, encodePublication (sampleSnapshot (js "4")) = .ok p ∧
      compact (sampleSnapshot (js "4")) = .ok p ∧
      ∃ s', decodeCompactSnapshot p = some s' ∧ Same s' (sampleSnapshot (js "4")) :=
  compactForm_bijective.1 _ (by decide +kernel) (List.all_eq_true.mp (by decide +kernel))

/-- The first half of a surrogate pair for a label: the snapshot is accepted, and is not encoded. -/
theorem not_encodePublication_surrogate : isSnapshot (sampleSnapshot [0xd800]) = true ∧
    ∃ e, encodePublication (sampleSnapshot [0xd800]) = .error e := by
  refine ⟨by decide +kernel, ?_⟩
  cases hencoded : encodePublication (sampleSnapshot [0xd800]) with
  | error e => exact ⟨e, rfl⟩
  | ok p =>
    have hraised : (encodePublication (sampleSnapshot [0xd800])).isOk = false := by decide +kernel
    rw [hencoded] at hraised
    cases hraised

end BkkCollector.Frontend.CompactForm
