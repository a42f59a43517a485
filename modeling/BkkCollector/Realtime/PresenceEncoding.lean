import BkkCollector.Realtime.PresenceReplay

/-! # What a record can encode

JSON has no `bytes`, so an observation with a `bytes` object in an identity raises before anything
is written. Everything else is encoded: as a baseline of everything present, or as a delta.

* `encode_isOk_iff`: when an observation is encoded.
* `prepare_refused`, `prepare_encoded`: what `observe` comes to before the append.
-/

namespace BkkCollector.Realtime.PresenceEncoding

open BkkCollector.Python.Objects BkkCollector.Python.Collections
open BkkCollector.Realtime.TripUpdatePolicy BkkCollector.Realtime.PresenceLog
open BkkCollector.Realtime.PresenceReplay

variable {json : Json}

/-! ### Plain identities -/

/-- An identity JSON can hold. -/
def Plain (identity : List Value) : Prop := ∀ v ∈ identity, v.isBytes = false

instance : DecidablePred Plain := fun identity =>
  inferInstanceAs (Decidable (∀ v ∈ identity, v.isBytes = false))

theorem dumps_isOk_iff (json : Json) {identity : List Value} :
    (∃ text, json.dumps identity = .ok text) ↔ Plain identity := by
  constructor
  · rintro ⟨text, htext⟩ v hv
    by_contra hbytes
    rw [json.dumps_bytes identity ⟨v, hv, by simpa using hbytes⟩] at htext
    cases htext
  · exact json.dumps_ok identity

/-- Identities are ordered by their JSON text, which all of them must have. -/
theorem ordered_isOk_iff (json : Json) {values : List (List Value)} :
    (∃ result, ordered json values = .ok result) ↔ ∀ value ∈ values, Plain value := by
  have hkeyed : (∃ keyed, (values.mapM fun value => do
      let text ← json.dumps value
      pure (text, value)) = .ok keyed) ↔ ∀ value ∈ values, Plain value := by
    induction values with
    | nil => simp [pure, Except.pure]
    | cons value values ih =>
      rw [List.forall_mem_cons, ← dumps_isOk_iff json, ← ih]
      simp only [List.mapM_cons, bind_eq_ok, pure_eq_ok]
      constructor
      · rintro ⟨_, _, ⟨text, htext, rfl⟩, rest, hrest, rfl⟩
        exact ⟨⟨text, htext⟩, rest, hrest⟩
      · rintro ⟨⟨text, htext⟩, rest, hrest⟩
        exact ⟨_, _, ⟨text, htext, rfl⟩, rest, hrest, rfl⟩
  rw [← hkeyed]
  unfold ordered
  simp only [bind_eq_ok, pure_eq_ok]
  constructor
  · rintro ⟨result, keyed, hkeyed, rfl⟩
    exact ⟨keyed, hkeyed⟩
  · rintro ⟨keyed, hkeyed⟩
    exact ⟨_, keyed, hkeyed, rfl⟩

/-- A membership with identities JSON can hold. -/
structure Encodable (members : Members) : Prop where
  trips : ∀ trip ∈ members, Plain trip
  stops : ∀ trip, ∀ stop ∈ ((members.lookup trip).getD ∅).toList, Plain stop

theorem encodable_empty : Encodable ∅ where
  trips trip h := absurd h (AList.notMem_empty trip)
  stops trip stop h := by simp at h

/-- The difference of one trip is encoded when the stop visits that changed are. -/
theorem diffTrip_isOk_iff (json : Json) {previous current : Members} (hprevious : Encodable previous)
    {trip : Trip} :
    (∃ change, diffTrip json previous current trip = .ok change) ↔
      ∀ stop ∈ ((current.lookup trip).getD ∅).toList, Plain stop := by
  simp only [diffTrip]
  have hordered : ∀ s t : PySet Stop, (∃ result, ordered json (s.diff t).toList = .ok result) ↔
      ∀ stop ∈ s.toList, stop ∉ t.toList → Plain stop := fun s t =>
    (ordered_isOk_iff json).trans (by simp only [PySet.mem_diff, and_imp])
  split_ifs with hcond
  · simp only [bind_eq_ok, pure_eq_ok]
    constructor
    · rintro ⟨_, entered, hentered, -⟩ stop hstop
      by_cases hold : stop ∈ ((previous.lookup trip).getD ∅).toList
      · exact hprevious.stops trip stop hold
      · exact (hordered _ _).mp ⟨entered, hentered⟩ stop hstop hold
    · intro hplain
      obtain ⟨entered, hentered⟩ := (hordered _ ((previous.lookup trip).getD ∅)).mpr
        fun stop hstop _ => hplain stop hstop
      obtain ⟨withdrawn, hwithdrawn⟩ := (hordered _ ((current.lookup trip).getD ∅)).mpr
        fun stop hstop _ => hprevious.stops trip stop hstop
      exact ⟨_, entered, hentered, withdrawn, hwithdrawn, rfl⟩
  · refine iff_of_true ⟨none, rfl⟩ fun stop hstop => ?_
    simp only [Bool.or_eq_true, Bool.not_eq_true', not_or, Bool.not_eq_false, PySet.isEmpty_iff,
      PySet.mem_diff, not_and, not_not] at hcond
    exact hprevious.stops trip stop (hcond.1.1.1 stop hstop)

theorem diffTrips_isOk_iff (json : Json) {previous current : Members} (hprevious : Encodable previous)
    {trips : List Trip} :
    (∃ changes, diffTrips json previous current trips = .ok changes) ↔
      ∀ trip ∈ trips, ∀ stop ∈ ((current.lookup trip).getD ∅).toList, Plain stop := by
  induction trips with
  | nil => exact iff_of_true ⟨[], rfl⟩ (by simp)
  | cons trip trips ih =>
    rw [List.forall_mem_cons, ← diffTrip_isOk_iff json hprevious, ← ih]
    simp only [diffTrips, bind_eq_ok, pure_eq_ok]
    constructor
    · rintro ⟨_, change, hchange, changes, hchanges, rfl⟩
      exact ⟨⟨change, hchange⟩, changes, hchanges⟩
    · rintro ⟨⟨change, hchange⟩, changes, hchanges⟩
      exact ⟨_, change, hchange, changes, hchanges, rfl⟩

/-- **When an observation is encoded**: exactly when JSON can hold its identities. -/
theorem encode_isOk_iff (json : Json) {p : TripUpdatePresence} {current : Observation}
    (context : Context) (freshId : String) (hprevious : Encodable (p.members.getD ∅)) :
    (∃ record, p.encode json current context freshId = .ok record) ↔
      Encodable current.members := by
  unfold TripUpdatePresence.encode
  simp only [bind_eq_ok, pure_eq_ok]
  have hmem : ∀ trip ∈ current.members, trip ∈ current.members.keys ∪ (p.members.getD ∅).keys :=
    fun trip h => List.mem_union_iff.mpr (Or.inl (AList.mem_keys.mp h))
  constructor
  · rintro ⟨_, trips, htrips, changes, hchanges, -⟩
    have hplain := (ordered_isOk_iff json).mp ⟨trips, htrips⟩
    refine ⟨fun trip h => hplain trip (hmem trip h), fun trip stop hstop => ?_⟩
    by_cases h : trip ∈ current.members
    · exact (diffTrips_isOk_iff json hprevious).mp ⟨changes, hchanges⟩ trip
        ((ordered_perm htrips).mem_iff.mpr (hmem trip h)) stop hstop
    · rw [AList.lookup_eq_none.mpr h] at hstop
      simp at hstop
  · intro hcurrent
    obtain ⟨trips, htrips⟩ := (ordered_isOk_iff json).mpr fun trip
        (h : trip ∈ current.members.keys ∪ (p.members.getD ∅).keys) =>
      (List.mem_union_iff.mp h).elim (fun h => hcurrent.trips trip (AList.mem_keys.mpr h))
        fun h => hprevious.trips trip (AList.mem_keys.mpr h)
    obtain ⟨changes, hchanges⟩ := (diffTrips_isOk_iff json hprevious).mpr
      fun trip (_ : trip ∈ trips) => hcurrent.stops trip
    exact ⟨_, trips, htrips, changes, hchanges, rfl⟩

/-- The rows of a response have identities JSON can hold. -/
def RowsPlain (rows : List Row) : Prop :=
  ∀ row ∈ rows, Plain (tripOf row) ∧
    (row.get "stop_time_update_index" ≠ .null → Plain (stopOf row))

instance : DecidablePred RowsPlain := fun rows =>
  inferInstanceAs (Decidable (∀ row ∈ rows, Plain (tripOf row) ∧
    (row.get "stop_time_update_index" ≠ .null → Plain (stopOf row))))

theorem encodable_observation_iff {rows : List Row} :
    Encodable (observation rows).members ↔ RowsPlain rows := by
  obtain ⟨htrips, hstops, -⟩ := observation_spec rows
  constructor
  · rintro ⟨ht, hs⟩ row hrow
    exact ⟨ht _ ((htrips _).mpr ⟨row, hrow, rfl⟩), fun hindex =>
      hs _ _ ((hstops _ _).mpr ⟨row, hrow, rfl, hindex, rfl⟩)⟩
  · intro h
    refine ⟨fun trip ht => ?_, fun trip stop hs => ?_⟩
    · obtain ⟨row, hrow, rfl⟩ := (htrips trip).mp ht
      exact (h row hrow).1
    · obtain ⟨row, hrow, -, hindex, rfl⟩ := (hstops trip stop).mp hs
      exact (h row hrow).2 hindex

/-! ### Baselines and deltas -/

/-- Each change describes what happened to one of the trips. -/
theorem describes_of_mem {previous current : Members} {trips : List Trip} {changes : List Change}
    (h : diffTrips json previous current trips = .ok changes) :
    ∀ change ∈ changes, ∃ trip ∈ trips,
      Describes change trip (previous.lookup trip) (current.lookup trip) := by
  induction trips generalizing changes with
  | nil =>
    cases h
    simp
  | cons trip trips ih =>
    simp only [diffTrips, bind_eq_ok, pure_eq_ok] at h
    obtain ⟨change, hchange, rest, hrest, rfl⟩ := h
    intro c hc
    rcases List.mem_append.mp hc with hc | hc
    · exact ⟨trip, List.mem_cons_self, (diffTrip_spec hchange).1 c (by simpa using hc)⟩
    · obtain ⟨t, ht, hd⟩ := ih hrest c hc
      exact ⟨t, List.mem_cons_of_mem _ ht, hd⟩

/-- A record that starts a stream: it withdraws nothing. -/
structure Baseline (record : Record) : Prop where
  kind : record.kind = .baseline
  sequence : record.sequence = 1
  trips : ∀ change ∈ record.changes, change.tripWithdrawn = false
  stops : ∀ change ∈ record.changes, change.withdrawnStops = []

theorem encode_baseline {p : TripUpdatePresence} {current : Observation} {context : Context}
    {freshId : String} {record : Record} (hp : p.members = none)
    (h : p.encode json current context freshId = .ok record) :
    Baseline record ∧ record.streamId = freshId := by
  simp only [TripUpdatePresence.encode, bind_eq_ok, pure_eq_ok, hp, Option.getD_none] at h
  obtain ⟨trips, htrips, changes, hchanges, rfl⟩ := h
  have hdesc := describes_of_mem hchanges
  refine ⟨⟨rfl, rfl, fun change hchange => ?_, fun change hchange => ?_⟩, rfl⟩
  · obtain ⟨trip, htrip, hd⟩ := hdesc change hchange
    have hmem : trip ∈ current.members := by
      simpa [← AList.mem_keys] using (ordered_perm htrips).mem_iff.mp htrip
    obtain ⟨stops, hstops⟩ := Option.isSome_iff_exists.mp (AList.lookup_isSome.mpr hmem)
    rw [hd.withdrawn, hstops]
    rfl
  · obtain ⟨trip, htrip, hd⟩ := hdesc change hchange
    refine List.eq_nil_iff_forall_not_mem.mpr fun stop hstop => ?_
    have hnone := ((hd.withdrawnStops stop).mp hstop).1
    simp at hnone

theorem encode_delta {p : TripUpdatePresence} {current : Observation} {context : Context}
    {freshId : String} {record : Record} (hp : p.members ≠ none)
    (h : p.encode json current context freshId = .ok record) :
    record.kind = .delta ∧ record.streamId = p.streamId := by
  simp only [TripUpdatePresence.encode, bind_eq_ok, pure_eq_ok] at h
  obtain ⟨trips, -, changes, -, rfl⟩ := h
  simp [Option.isNone_iff_eq_none, hp]

/-! ### Before the append -/

theorem Encodable.switchDate {p : TripUpdatePresence} (h : Encodable (p.members.getD ∅))
    (date : String) : Encodable ((p.switchDate date).members.getD ∅) := by
  unfold TripUpdatePresence.switchDate
  split
  · exact encodable_empty
  · exact h

/-- A membership that outlives the date switch is one of that date. -/
theorem switchDate_of_members {p : TripUpdatePresence} {date : String}
    (h : (p.switchDate date).members ≠ none) : p.switchDate date = p ∧ p.date = some date := by
  unfold TripUpdatePresence.switchDate at h ⊢
  split at h
  · exact absurd rfl h
  · next hdate => exact ⟨if_neg hdate, not_not.mp hdate⟩

/-- `observe` passes its guards: a complete dataset without deletions. -/
structure Accepted (rows : List Row) (context : Context) : Prop where
  incrementality : context.feedIncrementality.getD 0 = 0
  deletions : ∀ row ∈ rows, (row.get "entity_is_deleted").truthy = false

theorem prepare_accepted (p : TripUpdatePresence) {rows : List Row} {context : Context}
    (h : Accepted rows context) (date freshId : String) :
    p.prepare json rows date context freshId =
      (p.switchDate date, ((p.switchDate date).encode json (observation rows) context freshId).map
        (·, observation rows)) := by
  unfold TripUpdatePresence.prepare
  rw [if_neg (not_not.mpr h.incrementality), if_neg]
  simpa using h.deletions

/-- A response that does not pass the guards ends the stream. -/
theorem prepare_not_accepted (json : Json) (p : TripUpdatePresence) {rows : List Row} {context : Context}
    (h : ¬ Accepted rows context) (date freshId : String) :
    ∃ e p', p.prepare json rows date context freshId = (p', .error e) ∧ p'.members = none := by
  unfold TripUpdatePresence.prepare
  split_ifs with hincrementality hdeletions
  · exact ⟨_, _, rfl, rfl⟩
  · exact ⟨_, _, rfl, rfl⟩
  · exact absurd ⟨not_not.mp hincrementality, by simpa using hdeletions⟩ h

section prepare

variable {p p' : TripUpdatePresence} {rows : List Row} {date freshId : String} {context : Context}

/-- An observation that raises before the append leaves no membership behind, unless it is one JSON
cannot hold. -/
theorem prepare_refused {e : PyError} (hp : Encodable (p.members.getD ∅))
    (h : p.prepare json rows date context freshId = (p', .error e))
    (hrows : Accepted rows context → (p.switchDate date).members ≠ none → RowsPlain rows) :
    p'.members = none := by
  by_cases haccepted : Accepted rows context
  · rw [prepare_accepted p haccepted] at h
    obtain ⟨rfl, hencode⟩ := Prod.mk.inj h
    by_contra hmembers
    obtain ⟨record, hrecord⟩ := (encode_isOk_iff json context freshId (hp.switchDate date)).mpr
      (encodable_observation_iff.mpr (hrows haccepted hmembers))
    rw [hrecord] at hencode
    cases hencode
  · obtain ⟨e', q, hq, hnone⟩ := prepare_not_accepted json p haccepted date freshId
    rw [hq] at h
    cases h
    exact hnone

/-- An observation that gets to the append. -/
theorem prepare_encoded {record : Record} {current : Observation}
    (hp : Encodable (p.members.getD ∅))
    (h : p.prepare json rows date context freshId = (p', .ok (record, current))) :
    p' = p.switchDate date ∧ Encodable current.members ∧
      p'.encode json current context freshId = .ok record := by
  by_cases haccepted : Accepted rows context
  · rw [prepare_accepted p haccepted] at h
    obtain ⟨rfl, hencode⟩ := Prod.mk.inj h
    cases hrecord : (p.switchDate date).encode json (observation rows) context freshId with
    | error e =>
      rw [hrecord] at hencode
      cases hencode
    | ok r =>
      rw [hrecord] at hencode
      cases hencode
      exact ⟨rfl, (encode_isOk_iff json context freshId (hp.switchDate date)).mp ⟨_, hrecord⟩, hrecord⟩
  · obtain ⟨e', q, hq, -⟩ := prepare_not_accepted json p haccepted date freshId
    rw [hq] at h
    cases h

end prepare

end BkkCollector.Realtime.PresenceEncoding
