import Mathlib
import BkkCollector.Realtime.PresenceLog

/-! # Replaying the presence log

The writer encodes differences against the membership it remembers; the reader checks each of them
against the membership it replayed. `Knows r o` relates the two: the replayed sets and timestamps
are those of the observation `o`.

* `apply_encode`: a record read by a reader that knows the writer's last observation makes it know
  the encoded one.
* `replay_exact`: so over every run of observations, gaps, failed appends and restarts.
-/

namespace BkkCollector.Realtime.PresenceReplay

open BkkCollector.Python.Objects BkkCollector.Python.Collections
open BkkCollector.Realtime.TripUpdatePolicy BkkCollector.Realtime.PresenceLog

variable {json : Json}

/-! ### Ordering -/

theorem mapM_dumps {values : List (List Value)} {keyed : List (String × List Value)}
    (h : (values.mapM fun value => do
      let text ← json.dumps value
      pure (text, value)) = .ok keyed) : keyed.map (·.2) = values := by
  induction values generalizing keyed with
  | nil => cases h; rfl
  | cons value values ih =>
    simp only [List.mapM_cons, bind_eq_ok, pure_eq_ok] at h
    obtain ⟨_, ⟨text, -, rfl⟩, rest, hrest, rfl⟩ := h
    rw [List.map_cons, ih (by simpa only [bind_eq_ok, pure_eq_ok] using hrest)]

/-- Ordering loses and repeats nothing. -/
theorem ordered_perm {values result : List (List Value)} (h : ordered json values = .ok result) :
    result.Perm values := by
  obtain ⟨keyed, hk, h⟩ := bind_eq_ok.mp h
  rw [← pure_eq_ok.mp h, ← mapM_dumps hk]
  exact (List.perm_insertionSort _ _).map _

/-! ### Changes -/

/-- What a change says about one trip: `old` and `new` are its stop visits before and after. -/
structure Describes (change : Change) (trip : Trip) (old new : Option (PySet Stop)) : Prop where
  trip : change.trip = trip
  entered : change.tripEntered = old.isNone
  withdrawn : change.tripWithdrawn = new.isNone
  enteredStops : ∀ x, x ∈ change.enteredStops ↔
    x ∈ (new.getD ∅).toList ∧ x ∉ (old.getD ∅).toList
  withdrawnStops : ∀ x, x ∈ change.withdrawnStops ↔
    x ∈ (old.getD ∅).toList ∧ x ∉ (new.getD ∅).toList

theorem decide_mem_eq (d : Members) (trip : Trip) :
    (!decide (trip ∈ d)) = (d.lookup trip).isNone := by
  rw [Bool.eq_iff_iff]
  simp [AList.lookup_eq_none]

/-- The difference of one trip: a change that describes it, or none, and then nothing changed. -/
theorem diffTrip_spec {previous current : Members} {trip : Trip} {change : Option Change}
    (h : diffTrip json previous current trip = .ok change) :
    (∀ c ∈ change, Describes c trip (previous.lookup trip) (current.lookup trip)) ∧
    (change = none → Option.Rel PySet.Same (previous.lookup trip) (current.lookup trip) ∧
      trip ∈ current) := by
  simp only [diffTrip, decide_mem_eq] at h
  split_ifs at h with hcond
  · simp only [bind_eq_ok, pure_eq_ok] at h
    obtain ⟨entered, hentered, withdrawn, hwithdrawn, rfl⟩ := h
    refine ⟨fun c hc => ?_, fun h => by cases h⟩
    cases hc
    exact ⟨rfl, rfl, rfl, fun x => by rw [(ordered_perm hentered).mem_iff, PySet.mem_diff],
      fun x => by rw [(ordered_perm hwithdrawn).mem_iff, PySet.mem_diff]⟩
  · rw [← pure_eq_ok.mp h]
    refine ⟨(fun c hc => by cases hc), fun _ => ?_⟩
    simp only [Bool.or_eq_true, Bool.not_eq_true', not_or, Bool.not_eq_false,
      PySet.isEmpty_iff, PySet.mem_diff, not_and, not_not] at hcond
    obtain ⟨⟨⟨hentered, hwithdrawn⟩, hold⟩, hnew⟩ := hcond
    cases ho : previous.lookup trip with
    | none => simp [ho] at hold
    | some old =>
      cases hn : current.lookup trip with
      | none => simp [hn] at hnew
      | some new =>
        rw [ho, hn] at hentered hwithdrawn
        refine ⟨Option.Rel.some fun x => ⟨hwithdrawn x, hentered x⟩, ?_⟩
        rw [← AList.lookup_isSome, hn]
        rfl

/-- A described change takes a reader from the old stop visits of the trip to the new ones. -/
theorem applyChange_of_describes {members : Members} {change : Change} {trip : Trip}
    {old new : Option (PySet Stop)} (hd : Describes change trip old new)
    (hm : Option.Rel PySet.Same (members.lookup trip) old) (hsome : old.isSome ∨ new.isSome)
    (hlen : ∀ s ∈ old.toList ++ new.toList, ∀ x ∈ s.toList,
      x.length = stopIdentityFields.length) :
    ∃ members', applyChange members change = .ok members' ∧
      Option.Rel PySet.Same (members'.lookup trip) new ∧
      ∀ t, t ≠ trip → members'.lookup t = members.lookup t := by
  obtain ⟨htrip, hentered, hwithdrawn, hin, hout⟩ := hd
  subst htrip
  -- what the reader takes for the old stop visits
  obtain ⟨hno, o, ho, hsame⟩ : ¬ (change.tripEntered = true ∧
      (members.lookup change.trip).isSome = true) ∧
      ∃ o, (if change.tripEntered = true then some ∅ else members.lookup change.trip) = some o ∧
        PySet.Same o (old.getD ∅) := by
    revert hm
    generalize members.lookup change.trip = m
    rintro (hs | _)
    · exact ⟨by simp [hentered], _, by simp [hentered], hs⟩
    · exact ⟨by simp, ∅, by simp [hentered], PySet.Same.refl _⟩
  have hlenOk : ((PySet.ofList change.enteredStops).union
      (PySet.ofList change.withdrawnStops)).toList.any (fun stop =>
        decide (stop.length ≠ stopIdentityFields.length)) = false := by
    rw [List.any_eq_false]
    intro x hx
    simp only [PySet.mem_union, PySet.mem_ofList, hin, hout] at hx
    rw [decide_eq_true_eq, not_not]
    rcases hx with ⟨hx, -⟩ | ⟨hx, -⟩
    · cases hn : new with
      | none => simp [hn] at hx
      | some s => exact hlen s (by simp [hn]) x (by simpa [hn] using hx)
    · cases hn : old with
      | none => simp [hn] at hx
      | some s => exact hlen s (by simp [hn]) x (by simpa [hn] using hx)
  have hfits : (!(PySet.ofList change.enteredStops).isDisjoint o ||
      !(PySet.ofList change.withdrawnStops).isSubset o) = false := by
    simp only [Bool.or_eq_false_iff, Bool.not_eq_false', PySet.isDisjoint_iff, PySet.isSubset_iff,
      PySet.mem_ofList, hin, hout, hsame _]
    exact ⟨fun x hx => hx.2, fun x hx => hx.1⟩
  have hnew : PySet.Same ((o.diff (PySet.ofList change.withdrawnStops)).union
      (PySet.ofList change.enteredStops)) (new.getD ∅) := by
    intro x
    simp only [PySet.mem_union, PySet.mem_diff, PySet.mem_ofList, hin, hout, hsame x]
    tauto
  simp only [applyChange, hlenOk, Bool.false_eq_true, if_false, if_neg hno, ho, hfits, hwithdrawn]
  cases new with
  | none =>
    have hempty : PySet.isEmpty ((o.diff (PySet.ofList change.withdrawnStops)).union
        (PySet.ofList change.enteredStops)) = true :=
      (PySet.isEmpty_iff _).mpr fun x hx => by simpa using (hnew x).mp hx
    have hmem : change.trip ∈ members := by
      rw [← AList.lookup_isSome]
      simp only [Option.isSome_none, Bool.false_eq_true, or_false] at hsome
      revert hm
      generalize members.lookup change.trip = m
      rintro (hs | _)
      · rfl
      · cases hsome
    refine ⟨members.erase change.trip, by simp [hempty, hmem]; rfl, ?_, fun t ht => ?_⟩
    · rw [AList.lookup_erase]
      exact Option.Rel.none
    · exact AList.lookup_erase_ne ht
  | some new =>
    refine ⟨_, rfl, ?_, fun t ht => ?_⟩
    · rw [AList.lookup_insert]
      exact Option.Rel.some hnew
    · exact AList.lookup_insert_ne ht

/-- Every stop visit in `d` is a stop identity. -/
def StopsOk (d : Members) : Prop :=
  ∀ trip stops, d.lookup trip = some stops → ∀ x ∈ stops.toList,
    x.length = stopIdentityFields.length

theorem rel_trans {a b c : Option (PySet Stop)} (h : Option.Rel PySet.Same a b)
    (h' : Option.Rel PySet.Same b c) : Option.Rel PySet.Same a c := by
  cases h with
  | none => exact h'
  | some h =>
    cases h' with
    | some h' => exact Option.Rel.some (h.trans h')

/-- **The changes**: a reader that holds the old membership on the trips to come is taken to the
new one. -/
theorem applyChanges_diffTrips {previous current : Members} {trips : List Trip}
    {changes : List Change} (h : diffTrips json previous current trips = .ok changes)
    (hnodup : trips.Nodup) (hmem : ∀ t ∈ trips, t ∈ previous ∨ t ∈ current)
    (hlen : ∀ t ∈ trips, t.length = tripIdentityFields.length) (hprev : StopsOk previous)
    (hcur : StopsOk current) (members : Members) (changed : List Trip)
    (hchanged : ∀ t ∈ trips, t ∉ changed)
    (hm : ∀ t ∈ trips, Option.Rel PySet.Same (members.lookup t) (previous.lookup t)) :
    ∃ members', applyChanges changed members changes = .ok members' ∧
      (∀ t ∈ trips, Option.Rel PySet.Same (members'.lookup t) (current.lookup t)) ∧
      ∀ t, t ∉ trips → members'.lookup t = members.lookup t := by
  induction trips generalizing changes members changed with
  | nil =>
    cases h
    exact ⟨members, rfl, by simp, fun _ _ => rfl⟩
  | cons trip trips ih =>
    simp only [diffTrips, bind_eq_ok, pure_eq_ok] at h
    obtain ⟨change, hchange, rest, hrest, rfl⟩ := h
    obtain ⟨hnot, hnodup⟩ := List.nodup_cons.mp hnodup
    obtain ⟨hmem0, hmem⟩ := List.forall_mem_cons.mp hmem
    obtain ⟨hlen0, hlen⟩ := List.forall_mem_cons.mp hlen
    obtain ⟨hchanged0, hchanged⟩ := List.forall_mem_cons.mp hchanged
    obtain ⟨hm0, hm⟩ := List.forall_mem_cons.mp hm
    obtain ⟨hdesc, hnone⟩ := diffTrip_spec hchange
    cases change with
    | none =>
      -- nothing changed for this trip, and the record does not mention it
      obtain ⟨members', happly, hin, hout⟩ := ih hrest hnodup hmem hlen members changed hchanged hm
      refine ⟨members', happly, List.forall_mem_cons.mpr ⟨?_, hin⟩, fun t ht => hout t ?_⟩
      · rw [hout trip hnot]
        exact rel_trans hm0 (hnone rfl).1
      · exact fun h => ht (List.mem_cons_of_mem _ h)
    | some change =>
      have hd := hdesc change rfl
      obtain ⟨members1, happly1, hin1, hout1⟩ := applyChange_of_describes hd hm0
        (by rwa [AList.lookup_isSome, AList.lookup_isSome]) (by
          intro s hs x hx
          rcases List.mem_append.mp hs with hs | hs
          · exact hprev trip s (by simpa using hs) x hx
          · exact hcur trip s (by simpa using hs) x hx)
      have hne : ∀ t ∈ trips, t ≠ trip := fun t ht htt => hnot (htt ▸ ht)
      obtain ⟨members', happly, hin, hout⟩ := ih hrest hnodup hmem hlen members1
        (change.trip :: changed)
        (fun t ht hc => by
          rcases List.mem_cons.mp hc with hc | hc
          · exact hne t ht (hc.trans hd.trip)
          · exact hchanged t ht hc)
        (fun t ht => by rw [hout1 t (hne t ht)]; exact hm t ht)
      refine ⟨members', ?_, List.forall_mem_cons.mpr ⟨?_, hin⟩, fun t ht => ?_⟩
      · have hok : ¬ (change.trip.length ≠ tripIdentityFields.length ∨ change.trip ∈ changed) := by
          rw [hd.trip, not_or, not_not]
          exact ⟨hlen0, hchanged0⟩
        simp only [Option.toList_some, List.singleton_append, applyChanges, if_neg hok, happly1]
        exact happly
      · rw [hout trip hnot]
        exact hin1
      · rw [List.mem_cons, not_or] at ht
        rw [hout t ht.2, hout1 t ht.1]

/-- The withdrawn trips of a record are those that are not in the new membership. -/
theorem withdrawn_diffTrips {previous current : Members} {trips : List Trip}
    {changes : List Change} (h : diffTrips json previous current trips = .ok changes) (trip : Trip) :
    (∃ c ∈ changes, c.tripWithdrawn = true ∧ c.trip = trip) ↔ trip ∈ trips ∧ trip ∉ current := by
  induction trips generalizing changes with
  | nil =>
    cases h
    simp
  | cons t trips ih =>
    simp only [diffTrips, bind_eq_ok, pure_eq_ok] at h
    obtain ⟨change, hchange, rest, hrest, rfl⟩ := h
    obtain ⟨hdesc, hnone⟩ := diffTrip_spec hchange
    have hih := ih hrest
    cases change with
    | none =>
      have ht := (hnone rfl).2
      simp only [Option.toList_none, List.nil_append, hih, List.mem_cons]
      constructor
      · exact fun h => ⟨Or.inr h.1, h.2⟩
      · rintro ⟨rfl | h, hc⟩
        · exact absurd ht hc
        · exact ⟨h, hc⟩
    | some change =>
      have hd := hdesc change rfl
      have hw : change.tripWithdrawn = true ↔ t ∉ current := by
        rw [hd.withdrawn, ← AList.lookup_eq_none, Option.isNone_iff_eq_none]
      simp only [Option.toList_some, List.singleton_append, List.mem_cons, exists_eq_or_imp, hih,
        hw, hd.trip]
      constructor
      · rintro (⟨hc, rfl⟩ | ⟨h, hc⟩)
        · exact ⟨Or.inl rfl, hc⟩
        · exact ⟨Or.inr h, hc⟩
      · rintro ⟨rfl | h, hc⟩
        · exact Or.inl ⟨hc, rfl⟩
        · exact Or.inr ⟨h, hc⟩

/-! ### Source timestamps -/

theorem lookup_dropWithdrawn (timestamps : Timestamps) (changes : List Change) (trip : Trip) :
    ((∃ c ∈ changes, c.tripWithdrawn = true ∧ c.trip = trip) →
      (dropWithdrawn timestamps changes).lookup trip = none) ∧
    (¬ (∃ c ∈ changes, c.tripWithdrawn = true ∧ c.trip = trip) →
      (dropWithdrawn timestamps changes).lookup trip = timestamps.lookup trip) := by
  induction changes generalizing timestamps with
  | nil => simp [dropWithdrawn]
  | cons c changes ih =>
    have hcons : dropWithdrawn timestamps (c :: changes) =
        dropWithdrawn (if c.tripWithdrawn then timestamps.erase c.trip else timestamps) changes :=
      rfl
    rw [hcons]
    obtain ⟨hin, hout⟩ := ih (if c.tripWithdrawn then timestamps.erase c.trip else timestamps)
    simp only [List.mem_cons, exists_eq_or_imp, not_or]
    by_cases hrest : ∃ c ∈ changes, c.tripWithdrawn = true ∧ c.trip = trip
    · exact ⟨fun _ => hin hrest, fun h => absurd hrest h.2⟩
    · rw [hout hrest]
      refine ⟨fun h => ?_, fun h => ?_⟩
      · obtain ⟨hw, rfl⟩ := h.resolve_right hrest
        rw [if_pos hw, AList.lookup_erase]
      · by_cases hw : c.tripWithdrawn = true
        · rw [if_pos hw, AList.lookup_erase_ne fun ht => h.1 ⟨hw, ht.symm⟩]
        · rw [if_neg hw]

theorem applyUpdates_ok {members : Members} {updates : List (Trip × Value)}
    (hnodup : (updates.map (·.1)).Nodup)
    (hok : ∀ u ∈ updates, u.1 ∈ members ∧ validTimestamp u.2 = true) (seen : List Trip)
    (hseen : ∀ u ∈ updates, u.1 ∉ seen) (timestamps : Timestamps) :
    ∃ timestamps', applyUpdates members seen timestamps updates = .ok timestamps' ∧
      (∀ u ∈ updates, timestamps'.lookup u.1 = some u.2) ∧
      ∀ t, t ∉ updates.map (·.1) → timestamps'.lookup t = timestamps.lookup t := by
  induction updates generalizing seen timestamps with
  | nil => exact ⟨timestamps, rfl, by simp, fun _ _ => rfl⟩
  | cons u updates ih =>
    obtain ⟨trip, v⟩ := u
    rw [List.map_cons, List.nodup_cons] at hnodup
    obtain ⟨⟨hmem, hvalid⟩, hok⟩ := List.forall_mem_cons.mp hok
    obtain ⟨hseen0, hseen⟩ := List.forall_mem_cons.mp hseen
    obtain ⟨timestamps', happly, hin, hout⟩ := ih hnodup.2 hok (trip :: seen)
      (fun u hu hc => by
        rcases List.mem_cons.mp hc with hc | hc
        · exact hnodup.1 (List.mem_map.mpr ⟨u, hu, hc⟩)
        · exact hseen u hu hc) (timestamps.insert trip v)
    refine ⟨timestamps', ?_, List.forall_mem_cons.mpr ⟨?_, hin⟩, fun t ht => ?_⟩
    · have hgood : ¬ (trip ∉ members ∨ trip ∈ seen ∨ validTimestamp v = false) := by
        rw [not_or, not_or, not_not, Bool.not_eq_false]
        exact ⟨hmem, hseen0, hvalid⟩
      rw [applyUpdates, if_neg hgood]
      exact happly
    · rw [hout trip hnodup.1, AList.lookup_insert]
    · rw [List.map_cons, List.mem_cons, not_or] at ht
      rw [hout t ht.2, AList.lookup_insert_ne ht.1]

/-! ### Observations -/

/-- What holds of the observation behind a response. -/
structure ObservationOk (o : Observation) : Prop where
  trips : ∀ trip ∈ o.members, trip.length = tripIdentityFields.length
  stops : StopsOk o.members
  covered : ∀ trip, trip ∈ o.timestamps ↔ trip ∈ o.members
  valid : ∀ trip v, o.timestamps.lookup trip = some v → validTimestamp v = true

/-- A row as the parser makes it: identities are strings, integers or null, the source timestamp is
a protobuf `uint64` or null. -/
structure ParsedRow (row : Row) : Prop where
  identity : ∀ f ∈ tripUpdateKeyFields,
    row.get f = .null ∨ (∃ s, row.get f = .str s) ∨ ∃ i, row.get f = .int i
  timestamp : row.get "trip_update_timestamp" = .null ∨
    ∃ n : ℕ, row.get "trip_update_timestamp" = .int n

theorem observationOk_empty : ObservationOk {} where
  trips := by simp
  stops := by intro trip stops h; simp at h
  covered := by simp
  valid := by simp

theorem ObservationOk.addRow {o : Observation} (h : ObservationOk o) {row : Row}
    (hrow : ParsedRow row) : ObservationOk (o.addRow row) where
  trips trip ht := by
    rcases (AList.mem_insert _).mp ht with rfl | ht
    · simp [tripOf]
    · exact h.trips trip ht
  stops trip stops hs x hx := by
    by_cases ht : trip = tripOf row
    · subst ht
      simp only [Observation.addRow, AList.lookup_insert, Option.some.injEq] at hs
      subst hs
      have hold : ∀ y ∈ ((o.members.lookup (tripOf row)).getD ∅).toList,
          y.length = stopIdentityFields.length := by
        cases hl : o.members.lookup (tripOf row) with
        | none => simp
        | some s => exact h.stops _ s hl
      split at hx
      · exact hold x hx
      · rcases (PySet.mem_add _ _ _).mp hx with rfl | hx
        · simp [stopOf]
        · exact hold x hx
    · simp only [Observation.addRow, AList.lookup_insert_ne ht] at hs
      exact h.stops trip stops hs x hx
  covered trip := by
    simp only [Observation.addRow, AList.mem_insert, h.covered]
  valid trip v hv := by
    by_cases ht : trip = tripOf row
    · subst ht
      simp only [Observation.addRow, AList.lookup_insert, Option.some.injEq] at hv
      rcases hrow.timestamp with hts | ⟨n, hts⟩ <;> simp [← hv, hts, validTimestamp]
    · simp only [Observation.addRow, AList.lookup_insert_ne ht] at hv
      exact h.valid trip v hv

theorem observationOk {rows : List Row} (hrows : ∀ row ∈ rows, ParsedRow row) :
    ObservationOk (observation rows) := by
  have hfold : ∀ o, ObservationOk o → ObservationOk (rows.foldl Observation.addRow o) := by
    induction rows with
    | nil => exact fun o h => h
    | cons row rows ih =>
      obtain ⟨hrow, hrows⟩ := List.forall_mem_cons.mp hrows
      exact fun o h => ih hrows _ (h.addRow hrow)
  exact hfold _ observationOk_empty

/-! ### One record -/

/-- **The simulation relation**: the reader's sets and timestamps are those of an observation. -/
structure Knows (r : Replay) (o : Observation) : Prop where
  members : SetDict.Same r.members o.members
  timestamps : ∃ t, r.timestamps = some t ∧ ∀ trip, t.lookup trip = o.timestamps.lookup trip

/-- The observation behind the writer's state, if it has not lost track. -/
def lastObservation (p : TripUpdatePresence) : Option Observation :=
  p.members.map fun members => ⟨members, p.sourceTimestamps⟩

section Reading

variable {previous : Members} {current : Observation} {trips : List Trip} {changes : List Change}

theorem mem_trips (htrips : ordered json (current.members.keys ∪ previous.keys) = .ok trips) :
    trips.Nodup ∧ ∀ trip, trip ∈ trips ↔ trip ∈ current.members ∨ trip ∈ previous := by
  have hperm := ordered_perm htrips
  refine ⟨hperm.nodup_iff.mpr (previous.keys_nodup.union _), fun trip => ?_⟩
  rw [hperm.mem_iff, List.mem_union_iff, ← AList.mem_keys, ← AList.mem_keys]

/-- The changes take a reader from the previous membership to the current one. -/
theorem read_members (htrips : ordered json (current.members.keys ∪ previous.keys) = .ok trips)
    (hchanges : diffTrips json previous current.members trips = .ok changes)
    (hcur : ObservationOk current)
    (hprev : ∀ trip ∈ previous, trip.length = tripIdentityFields.length)
    (hstops : StopsOk previous) {start : Members} (hstart : SetDict.Same start previous) :
    ∃ members, applyChanges [] start changes = .ok members ∧
      SetDict.Same members current.members := by
  obtain ⟨hnodup, hmem⟩ := mem_trips htrips
  obtain ⟨members, happly, hin, hout⟩ := applyChanges_diffTrips hchanges hnodup
    (fun t ht => ((hmem t).mp ht).symm)
    (fun t ht => ((hmem t).mp ht).elim (hcur.trips t) (hprev t)) hstops hcur.stops start []
    (fun t _ => List.not_mem_nil) (fun t _ => hstart t)
  refine ⟨members, happly, fun trip => ?_⟩
  by_cases ht : trip ∈ trips
  · exact hin trip ht
  · have hno := not_or.mp (mt (hmem trip).mpr ht)
    have h := hstart trip
    rw [AList.lookup_eq_none.mpr hno.2] at h
    rwa [hout trip ht, AList.lookup_eq_none.mpr hno.1]

/-- The updates and the withdrawals take a reader from the known timestamps to the current ones. -/
theorem read_timestamps (htrips : ordered json (current.members.keys ∪ previous.keys) = .ok trips)
    (hchanges : diffTrips json previous current.members trips = .ok changes)
    (hcur : ObservationOk current) {members : Members}
    (hmembers : SetDict.Same members current.members) {baseline : Bool} {known start : Timestamps}
    (hknown : baseline = false → ∀ trip, trip ∈ known ↔ trip ∈ previous)
    (hstart : ∀ trip, start.lookup trip = if baseline then none else known.lookup trip) :
    ∃ t, applyUpdates members [] (dropWithdrawn start changes)
        (timestampUpdates baseline previous known current trips) = .ok t ∧
      ∀ trip, t.lookup trip = current.timestamps.lookup trip := by
  obtain ⟨hnodup, hmem⟩ := mem_trips htrips
  have hkeys : (timestampUpdates baseline previous known current trips).map (·.1) =
      trips.filter (timestampUpdated baseline previous known current) := by
    rw [timestampUpdates, List.map_map]
    exact List.map_id _
  have hlookup : ∀ trip ∈ current.members,
      current.timestamps.lookup trip = some ((current.timestamps.lookup trip).getD .null) := by
    intro trip ht
    obtain ⟨v, hv⟩ := Option.isSome_iff_exists.mp
      (AList.lookup_isSome.mpr ((hcur.covered trip).mpr ht))
    rw [hv]
    rfl
  have hupdated : ∀ u ∈ timestampUpdates baseline previous known current trips,
      u.1 ∈ current.members ∧ current.timestamps.lookup u.1 = some u.2 := by
    intro u hu
    obtain ⟨trip, ht, rfl⟩ := List.mem_map.mp hu
    have hin : trip ∈ current.members := by
      have := (List.mem_filter.mp ht).2
      simp only [timestampUpdated, Bool.and_eq_true, decide_eq_true_eq] at this
      exact this.1
    exact ⟨hin, hlookup trip hin⟩
  obtain ⟨t, happly, hin, hout⟩ := @applyUpdates_ok members _
    (by rw [hkeys]; exact hnodup.filter _)
    (fun u hu => ⟨(hmembers.mem_iff u.1).mpr (hupdated u hu).1,
      hcur.valid u.1 u.2 (hupdated u hu).2⟩) [] (fun u _ => List.not_mem_nil)
    (dropWithdrawn start changes)
  refine ⟨t, happly, fun trip => ?_⟩
  by_cases hu : trip ∈ (timestampUpdates baseline previous known current trips).map (·.1)
  · obtain ⟨u, hu', rfl⟩ := List.mem_map.mp hu
    rw [hin u hu', (hupdated u hu').2]
  rw [hout trip hu]
  rw [hkeys, List.mem_filter, not_and] at hu
  obtain ⟨hdrop, hkeep⟩ := lookup_dropWithdrawn start changes trip
  rw [withdrawn_diffTrips hchanges] at hdrop hkeep
  by_cases hc : trip ∈ current.members
  · -- present and not updated: known before, with the same timestamp
    have hnot := hu ((hmem trip).mpr (Or.inl hc))
    simp only [timestampUpdated, hc, decide_true, Bool.true_and, Bool.or_eq_true, not_or,
      Bool.not_eq_true', decide_eq_false_iff_not, not_not, decide_eq_true_eq,
      Bool.not_eq_true] at hnot
    obtain ⟨⟨hb, hp⟩, heq⟩ := hnot
    obtain ⟨v, hv⟩ := Option.isSome_iff_exists.mp
      (AList.lookup_isSome.mpr ((hknown hb trip).mpr hp))
    rw [hkeep fun h => h.2 hc, hstart, hb, hlookup trip hc, heq, hv]
    rfl
  · have hnone : current.timestamps.lookup trip = none :=
      AList.lookup_eq_none.mpr fun h => hc ((hcur.covered trip).mp h)
    rw [hnone]
    by_cases hp : trip ∈ previous
    · exact hdrop ⟨(hmem trip).mpr (Or.inr hp), hc⟩
    · rw [hkeep fun h => hp (((hmem trip).mp h.1).resolve_left hc), hstart]
      cases baseline with
      | true => rfl
      | false => exact AList.lookup_eq_none.mpr fun h => hp ((hknown rfl trip).mp h)

end Reading

/-- **A record is read as it was meant**: by a reader that knows the writer's last observation, or
by any reader if the writer had lost track. -/
theorem apply_encode {p : TripUpdatePresence} {current : Observation} {context : Context}
    {freshId : String} {record : Record} (h : p.encode json current context freshId = .ok record)
    (hcur : ObservationOk current) {r : Replay}
    (hprev : ∀ o ∈ lastObservation p, ObservationOk o ∧ Knows r o) :
    ∃ r', r.apply record = .ok r' ∧ Knows r' current := by
  simp only [TripUpdatePresence.encode, bind_eq_ok, pure_eq_ok] at h
  obtain ⟨trips, htrips, changes, hchanges, rfl⟩ := h
  -- what the reader starts from: nothing at a baseline, what it replayed otherwise
  obtain ⟨htripsOk, hstops, hstart, hknown, t0, ht0, hlookup⟩ :
      (∀ trip ∈ p.members.getD ∅, trip.length = tripIdentityFields.length) ∧
      StopsOk (p.members.getD ∅) ∧
      SetDict.Same (if p.members.isNone then ∅ else r.members) (p.members.getD ∅) ∧
      (p.members.isNone = false → ∀ trip, trip ∈ p.sourceTimestamps ↔ trip ∈ p.members.getD ∅) ∧
      ∃ t0, (if p.members.isNone then some ∅ else r.timestamps) = some t0 ∧
        ∀ trip, t0.lookup trip =
          if p.members.isNone then none else p.sourceTimestamps.lookup trip := by
    cases hm : p.members with
    | none =>
      exact ⟨observationOk_empty.trips, observationOk_empty.stops, SetDict.Same.refl _,
        (fun h => by cases h), ∅, rfl, fun trip => by simp⟩
    | some previous =>
      obtain ⟨hok, hk⟩ := hprev ⟨previous, p.sourceTimestamps⟩ (by simp [lastObservation, hm])
      obtain ⟨t0, ht0, hlookup⟩ := hk.timestamps
      exact ⟨hok.trips, hok.stops, hk.members, fun _ => hok.covered, t0, ht0, hlookup⟩
  obtain ⟨members, happly, hmembers⟩ := read_members htrips hchanges hcur htripsOk hstops hstart
  obtain ⟨t, hupdates, ht⟩ := read_timestamps htrips hchanges hcur hmembers hknown hlookup
  have hkind : (if p.members.isNone = true then Kind.baseline else Kind.delta) = .baseline ↔
      p.members.isNone = true := by split_ifs <;> simp [*]
  have hkeys : ∀ trip, trip ∈ t ↔ trip ∈ members := fun trip => by
    rw [← AList.lookup_isSome, ht, AList.lookup_isSome, hcur.covered, hmembers.mem_iff]
  refine ⟨⟨members, some t⟩, ?_, ⟨hmembers, t, rfl, ht⟩⟩
  refine bind_eq_ok.mpr ⟨members, ?_, bind_eq_ok.mpr ⟨some t, ?_, rfl⟩⟩
  · rw [applyPresenceRecord, if_neg (by cases p.members <;> simp)]
    refine bind_eq_ok.mpr ⟨members, by simpa only [hkind] using happly, ?_⟩
    rw [if_neg (by rw [not_or, not_not, not_not]; exact ⟨hmembers.size_eq, hmembers.total_eq⟩)]
    rfl
  · simp only [applySourceTimestampRecord, ne_eq, not_true_eq_false, if_false, hkind, ht0]
    refine bind_eq_ok.mpr ⟨t, hupdates, ?_⟩
    rw [if_neg (by simp [← AList.mem_keys, hkeys])]
    rfl

/-! ### Runs -/

/-- What becomes of an append: the record is durable, is lost with an error, or is durable and the
append reported an error. -/
inductive Append where
  | written
  | lost (e : PyError)
  | durable (e : PyError)

/-- What happens to a writer. -/
inductive Event where
  | observe (rows : List Row) (date : String) (context : Context) (freshId : String)
      (append : Append)
  | invalidate (reason : String)
  | restart (runId streamId : String)

/-- The logs, by date: their records in file order. -/
abbrev Logs := String → List Record

/-- What the caller of an append sees. -/
def Append.outcome : Append → Except PyError Unit
  | .written => .ok ()
  | .lost e | .durable e => .error e

/-- Is the record in the log. -/
def Append.kept : Append → Bool
  | .written | .durable _ => true
  | .lost _ => false

/-- Appending to the log of a date. -/
def Append.run (a : Append) (date : String) (record : Record) : StateM Logs (Except PyError Unit) :=
  fun logs =>
    (a.outcome, if a.kept then Function.update logs date (logs date ++ [record]) else logs)

/-- The writer and its logs. -/
structure World where
  writer : TripUpdatePresence
  logs : Logs := fun _ => []

/-- An observation of a world. -/
def World.observe (json : Json) (w : World) (rows : List Row) (date : String) (context : Context)
    (freshId : String) (append : Append) : World × Except PyError Details :=
  let r := w.writer.observe json rows date context freshId append.run w.logs
  ({ writer := r.1.1, logs := r.2 }, r.1.2)

/-- One event. A restart replaces the instance; the logs stay. -/
def World.step (json : Json) (w : World) : Event → World
  | .observe rows date context freshId append =>
    (w.observe json rows date context freshId append).1
  | .invalidate reason => { w with writer := w.writer.invalidate reason }
  | .restart runId streamId => { w with writer := TripUpdatePresence.start runId streamId }

/-- The rows of an event are the parser's. -/
def Event.Parsed : Event → Prop
  | .observe rows .. => ∀ row ∈ rows, ParsedRow row
  | _ => True

/-- **The invariant**: every log replays, and a writer that has not lost track is at the end of the
log of its date. -/
structure InStep (w : World) : Prop where
  replays : ∀ date, ∃ r, replay (w.logs date) = .ok r
  known : ∀ o ∈ lastObservation w.writer, ∃ date, w.writer.date = some date ∧ ObservationOk o ∧
    ∃ r, replay (w.logs date) = .ok r ∧ Knows r o

theorem replay_append {log : List Record} {r r' : Replay} {record : Record}
    (h : replay log = .ok r) (h' : r.apply record = .ok r') :
    replay (log ++ [record]) = .ok r' := by
  unfold replay at h ⊢
  rw [List.foldlM_append, h]
  exact bind_eq_ok.mpr ⟨r, rfl, bind_eq_ok.mpr ⟨r', h', rfl⟩⟩

/-- A writer that forgot, or never knew, is in step with any logs that replay. -/
theorem inStep_of_members_none {w : World} (h : ∀ date, ∃ r, replay (w.logs date) = .ok r)
    (hnone : w.writer.members = none) : InStep w :=
  ⟨h, fun o ho => by simp [lastObservation, hnone] at ho⟩

theorem switchDate_date (p : TripUpdatePresence) (date : String) :
    (p.switchDate date).date = some date := by
  unfold TripUpdatePresence.switchDate
  split
  · rfl
  · next h => exact not_not.mp h

/-- A date switch loses track; without one nothing happens. -/
theorem switchDate_eq {p : TripUpdatePresence} {date : String} {o : Observation}
    (h : o ∈ lastObservation (p.switchDate date)) : p.switchDate date = p := by
  unfold TripUpdatePresence.switchDate at h ⊢
  split
  · next hd =>
    rw [if_pos hd] at h
    simp [lastObservation] at h
  · rfl

theorem InStep.switchDate {w : World} (h : InStep w) (date : String) :
    InStep { w with writer := w.writer.switchDate date } where
  replays := h.replays
  known o ho := by
    have heq : w.writer.switchDate date = w.writer := switchDate_eq ho
    simp only [heq] at ho ⊢
    exact h.known o ho

/-- What `observe` does before the append: it fails and stays in step, or it has a record that the
log of its date can be continued with. -/
theorem InStep.prepare {w : World} (h : InStep w) {rows : List Row}
    (hrows : ∀ row ∈ rows, ParsedRow row) (date : String) (context : Context) (freshId : String) :
    (∃ p e, w.writer.prepare json rows date context freshId = (p, .error e) ∧
      InStep { w with writer := p }) ∨
    ∃ p record, w.writer.prepare json rows date context freshId =
        (p, .ok (record, observation rows)) ∧ p.date = some date ∧ InStep { w with writer := p } ∧
      ∃ r', replay (w.logs date ++ [record]) = .ok r' ∧ Knows r' (observation rows) := by
  simp only [TripUpdatePresence.prepare]
  split_ifs with h1 h2
  · exact Or.inl ⟨_, _, rfl, inStep_of_members_none h.replays rfl⟩
  · exact Or.inl ⟨_, _, rfl, inStep_of_members_none h.replays rfl⟩
  · have hs := h.switchDate date
    cases he : (w.writer.switchDate date).encode json (observation rows) context freshId with
    | error e => exact Or.inl ⟨_, e, rfl, hs⟩
    | ok record =>
      have hd := switchDate_date w.writer date
      refine Or.inr ⟨_, record, rfl, hd, hs, ?_⟩
      obtain ⟨r, hr⟩ := h.replays date
      obtain ⟨r', happly, hknows⟩ := apply_encode he (observationOk hrows) (r := r) fun o ho => by
        obtain ⟨date', hdate', hok, r'', hr'', hk⟩ := hs.known o ho
        rw [hd, Option.some.injEq] at hdate'
        subst hdate'
        rw [hr, Except.ok.injEq] at hr''
        exact ⟨hok, hr'' ▸ hk⟩
      exact ⟨r', replay_append hr happly, hknows⟩

/-- **One observation** keeps the writer in step, and where it succeeds the log of its date replays
to what was observed. -/
theorem InStep.observe {w : World} (h : InStep w) {rows : List Row}
    (hrows : ∀ row ∈ rows, ParsedRow row) (date : String) (context : Context) (freshId : String)
    (append : Append) :
    InStep (w.observe json rows date context freshId append).1 ∧
    ∀ details, (w.observe json rows date context freshId append).2 = .ok details →
      ∃ r, replay ((w.observe json rows date context freshId append).1.logs date) = .ok r ∧
        Knows r (observation rows) := by
  simp only [World.observe, TripUpdatePresence.observe]
  rcases h.prepare hrows date context freshId with
    ⟨p, e, hp, hin⟩ | ⟨p, record, hp, hdate, hin, r', hr', hk⟩
  · rw [hp]
    exact ⟨hin, fun details hd => by cases hd⟩
  · rw [hp]
    have hreplays : ∀ d, ∃ r,
        replay (Function.update w.logs date (w.logs date ++ [record]) d) = .ok r := by
      intro d
      by_cases hd : d = date
      · subst hd
        rw [Function.update_self]
        exact ⟨r', hr'⟩
      · rw [Function.update_of_ne hd]
        exact h.replays d
    cases append with
    | written =>
      have hlog : replay (Function.update w.logs date (w.logs date ++ [record]) date) = .ok r' := by
        rwa [Function.update_self]
      refine ⟨⟨hreplays, fun o ho => ?_⟩, fun details hd => ⟨r', hlog, hk⟩⟩
      have ho' : some (observation rows) = some o := ho
      cases ho'
      exact ⟨date, hdate, observationOk hrows, r', hlog, hk⟩
    | lost e => exact ⟨inStep_of_members_none h.replays rfl, fun details hd => by cases hd⟩
    | durable e => exact ⟨inStep_of_members_none hreplays rfl, fun details hd => by cases hd⟩

/-! ### What the rows of a response say -/

/-- The observation of some rows, read off the rows. -/
theorem observation_spec (rows : List Row) :
    (∀ trip, trip ∈ (observation rows).members ↔ ∃ row ∈ rows, tripOf row = trip) ∧
    (∀ trip stop, stop ∈ (((observation rows).members.lookup trip).getD ∅).toList ↔
      ∃ row ∈ rows, tripOf row = trip ∧ row.get "stop_time_update_index" ≠ .null ∧
        stopOf row = stop) ∧
    ∀ trip, (observation rows).timestamps.lookup trip =
      (rows.filter (tripOf · = trip)).getLast?.map (·.get "trip_update_timestamp") := by
  induction rows using List.reverseRecOn with
  | nil => simp [observation]
  | append_singleton rows row ih =>
    obtain ⟨htrips, hstops, htimestamps⟩ := ih
    have happ : observation (rows ++ [row]) = (observation rows).addRow row := by
      simp [observation]
    rw [happ]
    refine ⟨fun trip => ?_, fun trip stop => ?_, fun trip => ?_⟩
    · simp only [Observation.addRow, AList.mem_insert, htrips, List.mem_append,
        List.mem_singleton, or_and_right, exists_or, exists_eq_left]
      rw [or_comm, eq_comm]
    · simp only [List.mem_append, List.mem_singleton, or_and_right, exists_or, exists_eq_left,
        ← hstops]
      by_cases ht : trip = tripOf row
      · subst ht
        simp only [Observation.addRow, AList.lookup_insert, Option.getD_some, true_and]
        cases hn : (row.get "stop_time_update_index").isNone with
        | true =>
          have hnull := isNone_iff.mp hn
          simp [hnull]
        | false =>
          have hnull : row.get "stop_time_update_index" ≠ .null := fun h => by
            rw [h] at hn
            cases hn
          simp only [Bool.false_eq_true, if_false, PySet.mem_add, ne_eq, hnull,
            not_false_eq_true, true_and]
          rw [or_comm, eq_comm]
      · have hne : ¬ tripOf row = trip := fun h => ht h.symm
        simp [Observation.addRow, AList.lookup_insert_ne ht, hne]
    · by_cases ht : trip = tripOf row
      · subst ht
        simp [Observation.addRow]
      · have hne : ¬ tripOf row = trip := fun h => ht h.symm
        simp [Observation.addRow, AList.lookup_insert_ne ht, htimestamps, hne]

/-- **A replay is exact** for the rows of a response: its trips and stop visits are those of the
rows, and the timestamp of each trip is that of its last row. -/
structure Exact (r : Replay) (rows : List Row) : Prop where
  trips : ∀ trip, trip ∈ r.members ↔ ∃ row ∈ rows, tripOf row = trip
  stops : ∀ trip stops, r.members.lookup trip = some stops → ∀ stop, stop ∈ stops.toList ↔
    ∃ row ∈ rows, tripOf row = trip ∧ row.get "stop_time_update_index" ≠ .null ∧ stopOf row = stop
  timestamps : ∃ t, r.timestamps = some t ∧ ∀ trip, t.lookup trip =
    (rows.filter (tripOf · = trip)).getLast?.map (·.get "trip_update_timestamp")

theorem Knows.exact {r : Replay} {rows : List Row} (h : Knows r (observation rows)) :
    Exact r rows := by
  obtain ⟨htrips, hstops, htimestamps⟩ := observation_spec rows
  refine ⟨fun trip => (h.members.mem_iff trip).trans (htrips trip), fun trip stops hl stop => ?_, ?_⟩
  · rw [← hstops trip stop]
    have hrel := h.members trip
    rw [hl] at hrel
    revert hrel
    generalize (observation rows).members.lookup trip = s
    rintro (hs | _)
    exact hs stop
  · obtain ⟨t, ht, hlookup⟩ := h.timestamps
    exact ⟨t, ht, fun trip => (hlookup trip).trans (htimestamps trip)⟩

theorem InStep.step {w : World} (h : InStep w) {event : Event} (hevent : event.Parsed) :
    InStep (w.step json event) := by
  cases event with
  | observe rows date context freshId append =>
    exact (h.observe hevent date context freshId append).1
  | invalidate reason => exact inStep_of_members_none h.replays rfl
  | restart runId streamId => exact inStep_of_members_none h.replays rfl

theorem InStep.run {w : World} (h : InStep w) {events : List Event}
    (hevents : ∀ event ∈ events, event.Parsed) : InStep (events.foldl (World.step json) w) := by
  induction events generalizing w with
  | nil => exact h
  | cons event events ih =>
    obtain ⟨hevent, hevents⟩ := List.forall_mem_cons.mp hevents
    exact ih (h.step hevent) hevents

/-- **Presence log replay is exact.** After every run of observations, gaps, failed appends and
restarts, the log of every date replays from nothing without an exception; and after an
observation that succeeded, the log of its date replays to exactly its rows. -/
theorem replay_exact (json : Json) (runId streamId : String) (events : List Event)
    (hevents : ∀ event ∈ events, event.Parsed) :
    let w := events.foldl (World.step json) { writer := TripUpdatePresence.start runId streamId }
    (∀ date, ∃ r, replay (w.logs date) = .ok r) ∧
    ∀ rows date context freshId append details, (∀ row ∈ rows, ParsedRow row) →
      (w.observe json rows date context freshId append).2 = .ok details →
      ∃ r, replay ((w.observe json rows date context freshId append).1.logs date) = .ok r ∧
        Exact r rows := by
  intro w
  have hinit : InStep { writer := TripUpdatePresence.start runId streamId } :=
    inStep_of_members_none (fun _ => ⟨{}, rfl⟩) rfl
  have hw : InStep w := hinit.run hevents
  refine ⟨hw.replays, fun rows date context freshId append details hrows hok => ?_⟩
  obtain ⟨r, hr, hk⟩ := (hw.observe hrows date context freshId append).2 details hok
  exact ⟨r, hr, hk.exact⟩

/-- A row of one trip, at one stop or at none. -/
def sampleRow (trip : String) (stop : Option ℤ) (timestamp : ℕ) : Row :=
  [("trip_id", .str trip), ("stop_sequence", (stop.map Value.int).getD .null),
    ("stop_time_update_index", (stop.map Value.int).getD .null),
    ("trip_update_timestamp", .int timestamp)]

theorem sampleRow_parsed (trip : String) (stop : Option ℤ) (timestamp : ℕ) :
    ParsedRow (sampleRow trip stop timestamp) where
  identity f hf := by
    simp only [tripUpdateKeyFields, List.mem_cons, List.not_mem_nil, or_false] at hf
    rcases hf with rfl | rfl | rfl | rfl | rfl | rfl | rfl <;> cases stop <;>
      simp [sampleRow, Row.get, List.lookup]
  timestamp := Or.inr ⟨timestamp, by simp [sampleRow, Row.get, List.lookup]⟩

/-- Two stop visits of one trip. -/
def sampleRows : List Row := [sampleRow "T1" (some 1) 7, sampleRow "T1" (some 2) 8]

/-- The trip is there; then it leaves in a delta whose append is durable but reported as failed. -/
def sampleEvents : List Event :=
  [.observe sampleRows "2026-01-01" ⟨"p1", "s", "r", none, some 0⟩ "a" .written,
    .observe [] "2026-01-01" ⟨"p2", "s", "r", none, some 0⟩ "b" (.durable ⟨.osError, ""⟩)]

/-- At the next response the trip is back, and the log replays to it. -/
theorem replay_exact_reentry :
    ∃ r, replay (((sampleEvents.foldl (World.step plainJson)
        { writer := TripUpdatePresence.start "run" "stream" }).observe plainJson sampleRows
          "2026-01-01" ⟨"p3", "s", "r", none, some 0⟩ "c" .written).1.logs "2026-01-01") = .ok r ∧
      Exact r sampleRows := by
  have hrows : ∀ row ∈ sampleRows, ParsedRow row := by simp [sampleRows, sampleRow_parsed]
  have hevents : ∀ event ∈ sampleEvents, event.Parsed := by
    simp only [sampleEvents, List.forall_mem_cons]
    exact ⟨hrows, by simp [Event.Parsed], by simp⟩
  have hok : ((sampleEvents.foldl (World.step plainJson)
      { writer := TripUpdatePresence.start "run" "stream" }).observe plainJson sampleRows
        "2026-01-01" ⟨"p3", "s", "r", none, some 0⟩ "c" .written).2 =
      .ok ⟨presencePath "2026-01-01", .baseline, "c", 1, 1, 2, 1⟩ := by decide +kernel
  exact (replay_exact plainJson "run" "stream" sampleEvents hevents).2 sampleRows _ _ _ _ _ hrows hok

end BkkCollector.Realtime.PresenceReplay
