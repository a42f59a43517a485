import BkkCollector.Collector.Evidence
import BkkCollector.Collector.PresenceGaps
import BkkCollector.Python.Documents

/-! # The poll events of a response

What the journal of a feed holds is one object per poll, as `process_result` writes it. Here are the
objects, and what a processed response leaves behind of them and of presence records: the call of
`observe` it makes, and one event at most, which reports that call.

* `process_call`, `process_gap`, `process_other_call`: one response. -/

namespace BkkCollector.Collector.PollEvents

open BkkCollector.Python.Objects BkkCollector.Python.Documents BkkCollector.Config
open BkkCollector.Monitoring
open BkkCollector.Realtime.Dedup BkkCollector.Realtime.PresenceLog
open BkkCollector.Realtime.PresenceReplay
open BkkCollector.Collector.RawArchive BkkCollector.Collector.ProcessResult
open BkkCollector.Collector.Outcomes BkkCollector.Collector.PresenceGaps

/-! ### The objects -/

/-- A text or `null`. -/
def textOrNull (text : Option String) : Doc := (text.map Doc.str).getD .null

/-- A truth value or `null`. -/
def boolOrNull (b : Option Bool) : Doc := (b.map Doc.bool).getD .null

/-- `record["kind"]`. -/
def kindText : Kind → String
  | .baseline => "baseline"
  | .delta => "delta"
  | .unknown text => text

/-- `**presence_details`. -/
def detailMembers (details : Details) : List (String × Doc) :=
  [("presence_path", .str details.path), ("presence_kind", .str (kindText details.kind)),
    ("presence_stream_id", .str details.streamId), ("presence_sequence", .int details.sequence),
    ("present_trips", .int details.presentTrips),
    ("present_stop_visits", .int details.presentStopVisits),
    ("presence_source_timestamps_version", .int details.sourceTimestampsVersion)]

/-- The event of a response with a payload. -/
def responseMembers (e : JournalEvent) : List (String × Doc) :=
  [("poll_id", .str e.pollId), ("feed", .str e.feed.name), ("success", .bool true),
    ("error", textOrNull e.error), ("presence_required", .bool e.presenceRequired),
    ("presence_ok", boolOrNull e.presenceOk), ("presence_error", textOrNull e.presenceError)] ++
  (e.presenceDetails.map detailMembers).getD [] ++
  [("parse_error", textOrNull e.parseError), ("change_tracking_ok", .bool e.changeTrackingOk),
    ("change_tracking_error", textOrNull e.changeTrackingError),
    ("change_tracking_failure_flag", textOrNull (e.changeTrackingFailureFlag.map Flag.name)),
    ("spool_error", textOrNull e.spoolError), ("payload_sha256", textOrNull e.payloadSha256),
    ("entity_content_sha256", textOrNull e.entityContentSha256),
    ("freshness_flags", .list (e.freshnessFlags.map Doc.str)), ("raw_due", .bool e.rawDue),
    ("raw_archived", .bool e.rawArchived), ("raw_ok", .bool e.rawOk),
    ("raw_path", textOrNull e.rawPath), ("raw_error", textOrNull e.rawError),
    ("trip_auxiliary_sha256", textOrNull e.tripAuxiliarySha256),
    ("trip_auxiliary_state_changed", boolOrNull e.tripAuxiliaryStateChanged),
    ("parse_ok", .bool e.parseOk), ("parsed_rows", .int e.parsedRows),
    ("selected_rows", .int e.selectedRows), ("emitted_rows", .int e.emittedRows),
    ("spool_ok", .bool e.spoolOk), ("spool_path", textOrNull e.spoolPath)]

/-- `_failure_event`. -/
def failureMembers (e : JournalEvent) : List (String × Doc) :=
  [("poll_id", .str e.pollId), ("feed", .str e.feed.name),
    ("presence_required", .bool (e.feed = .tripupdates)),
    ("presence_ok", if e.feed = .tripupdates then .bool false else .null),
    ("success", .bool false), ("error", textOrNull e.error), ("payload_sha256", .null),
    ("raw_due", .bool false), ("raw_archived", .bool false), ("parse_ok", .bool false),
    ("parsed_rows", .int 0), ("selected_rows", .int 0), ("emitted_rows", .int 0)]

/-- The object `append_poll_event` writes, as it is read back. -/
def toDoc (e : JournalEvent) : Doc :=
  .dict (if e.success then responseMembers e else failureMembers e)

/-! ### What a trace leaves -/

/-- A presence record that came into its log. -/
def keptRecord : StorageEvent → Option (String × Record)
  | .presence date record append => if append.kept then some (date, record) else none
  | _ => none

/-- The presence records that came into their logs. -/
def records (trace : Trace) : List (String × Record) := trace.filterMap keptRecord

/-- An event of TripUpdates that came into its journal; `lineKept` says whether the line of a failed
append is there. -/
def keptEvent (lineKept : Bool) : StorageEvent → Option (String × JournalEvent)
  | .journal .tripupdates date event outcome =>
    if outcome.isOk || lineKept then some (date, event) else none
  | _ => none

/-- The events of TripUpdates that came into their journals. -/
def journalled (lineKept : Bool) (trace : Trace) : List (String × JournalEvent) :=
  trace.filterMap (keptEvent lineKept)

/-- An event that is neither. -/
def StorageEvent.IsQuiet : StorageEvent → Prop
  | .presence .. | .journal .. => False
  | _ => True

theorem quiet_of_raw : ∀ ev, Outcomes.StorageEvent.IsRaw ev → StorageEvent.IsQuiet ev := by
  intro ev h
  cases ev <;> first | exact trivial | exact h

theorem quiet_of_stage : ∀ ev, Outcomes.StorageEvent.IsStage ev → StorageEvent.IsQuiet ev := by
  intro ev h
  cases ev <;> first | exact trivial | exact h

theorem records_append (old evs : Trace) : records (old ++ evs) = records old ++ records evs :=
  List.filterMap_append

theorem journalled_append (lineKept : Bool) (old evs : Trace) :
    journalled lineKept (old ++ evs) = journalled lineKept old ++ journalled lineKept evs :=
  List.filterMap_append

/-- Quiet events leave nothing. -/
theorem quiet_adds {old new : Trace} (h : Adds StorageEvent.IsQuiet old new) (lineKept : Bool) :
    records new = records old ∧ journalled lineKept new = journalled lineKept old := by
  obtain ⟨evs, rfl, hevs⟩ := h
  have hrecords : records evs = [] := by
    refine List.filterMap_eq_nil_iff.mpr fun ev hev => ?_
    have hquiet := hevs ev hev
    cases ev <;> first | rfl | exact absurd hquiet id
  have hjournalled : journalled lineKept evs = [] := by
    refine List.filterMap_eq_nil_iff.mpr fun ev hev => ?_
    have hquiet := hevs ev hev
    cases ev <;> first | rfl | exact absurd hquiet id
  rw [records_append, journalled_append, hrecords, hjournalled, List.append_nil, List.append_nil]
  exact ⟨rfl, rfl⟩

/-! ### The call of `observe` -/

/-- What becomes of presence while a response is processed: the instance afterwards, what `observe`
returned or raised if it was called, and the storage events. -/
structure Call where
  presence : TripUpdatePresence
  outcome : Option (Except PyError Details)
  trace : Trace

/-- The presence block of a TripUpdates response with a payload. -/
def presenceCall (lib : Libraries) (plan : Plan) (p : TripUpdatePresence) (result : FetchResult)
    (parsed : Parsed) : Call :=
  match parsed.error, parsed.feed with
  | none, some message =>
    let r := p.observe lib.json parsed.rows (lib.utcDate result.responseReceivedTs)
      (parseContext result message) plan.freshId plan.ops.appendPresence []
    ⟨r.1.1, some r.1.2, r.2⟩
  | _, _ => ⟨p.invalidate "parse_observation_gap", none, []⟩

/-- `presence_ok`, `presence_details` and `presence_error`. -/
def presenceOutcome : Option (Except PyError Details) → PresenceOutcome
  | none => { ok := false }
  | some (.error e) => { ok := false, error := some e }
  | some (.ok details) => { ok := true, details := some details }

/-- An event that reports a call. -/
structure Reports (event : JournalEvent) (result : FetchResult) (parsed : Bool)
    (outcome : Option (Except PyError Details)) : Prop where
  pollId : event.pollId = result.pollId
  success : event.success = true
  required : event.presenceRequired = true
  ok : event.presenceOk = some (presenceOutcome outcome).ok
  details : event.presenceDetails = (presenceOutcome outcome).details
  parsed : event.parseOk = parsed

section steps

variable (c : CollectorConfig) (lib : Libraries) (plan : Plan) (s : CollectorState)
  (result : FetchResult) (payload : Bytes) (parsed : Parsed) (trace : Trace)

variable {lib plan} in
/-- `observe` of a response that is refused. -/
theorem observe_refused {p p' : TripUpdatePresence} {rows : List Row} {date freshId : String}
    {context : Context} {e : PyError}
    (hprepare : p.prepare lib.json rows date context freshId = (p', .error e)) :
    p.observe lib.json rows date context freshId plan.ops.appendPresence trace =
      ((p', .error e), trace) := by
  unfold TripUpdatePresence.observe
  rw [hprepare]
  rfl

variable {lib plan} in
/-- `observe` of a response that gives a record. -/
theorem observe_recorded {p p' : TripUpdatePresence} {rows : List Row} {date freshId : String}
    {context : Context} {record : Record} {current : Observation}
    (hprepare : p.prepare lib.json rows date context freshId = (p', .ok (record, current))) :
    p.observe lib.json rows date context freshId plan.ops.appendPresence trace =
      ((if plan.presence.outcome.isOk then p'.advance record current
          else p'.invalidate "presence_write_gap",
        plan.presence.outcome.map fun _ => record.details date),
        trace ++ [.presence date record plan.presence]) := by
  obtain ⟨hp, hok, htrace⟩ := observe_after lib plan trace hprepare
  refine Prod.ext (Prod.ext hp ?_) htrace
  unfold TripUpdatePresence.observe
  rw [hprepare]
  cases happend : plan.presence <;>
    simp [Plan.ops, happend, bind, StateT.bind, pure, StateT.pure, Append.outcome, Except.map]

/-- `observe` adds its storage events to a trace, whatever is there. -/
theorem observe_trace (p : TripUpdatePresence) (rows : List Row) (date freshId : String)
    (context : Context) :
    p.observe lib.json rows date context freshId plan.ops.appendPresence trace =
      ((p.observe lib.json rows date context freshId plan.ops.appendPresence []).1,
        trace ++ (p.observe lib.json rows date context freshId plan.ops.appendPresence []).2) := by
  rcases hprepare : p.prepare lib.json rows date context freshId with ⟨p', e | ⟨record, current⟩⟩
  · rw [observe_refused trace hprepare, observe_refused [] hprepare, List.append_nil]
  · rw [observe_recorded trace hprepare, observe_recorded [] hprepare]
    rfl

variable {lib plan result parsed} in
/-- The call of a response that parsed. -/
theorem presenceCall_parsed {p : TripUpdatePresence} {message : FeedMessage}
    (herror : parsed.error = none) (hmessage : parsed.feed = some message) :
    presenceCall lib plan p result parsed =
      let r := p.observe lib.json parsed.rows (lib.utcDate result.responseReceivedTs)
        (parseContext result message) plan.freshId plan.ops.appendPresence []
      ⟨r.1.1, some r.1.2, r.2⟩ := by
  rw [presenceCall, herror, hmessage]

variable {lib plan result parsed} in
/-- A response that did not parse is a gap. -/
theorem presenceCall_unparsed {p : TripUpdatePresence}
    (h : ∀ message, parsed.error = none → parsed.feed = some message → False) :
    presenceCall lib plan p result parsed = ⟨p.invalidate "parse_observation_gap", none, []⟩ := by
  unfold presenceCall
  split
  · next message herror hmessage => exact absurd hmessage (h message herror)
  · rfl

theorem observePresence_call (hfeed : result.feedName = .tripupdates) :
    After (observePresence lib plan.ops s result parsed) trace fun r new =>
      r = ({ s with presence := (presenceCall lib plan s.presence result parsed).presence },
        presenceOutcome (presenceCall lib plan s.presence result parsed).outcome) ∧
      new = trace ++ (presenceCall lib plan s.presence result parsed).trace := by
  unfold observePresence
  rw [if_pos hfeed]
  split
  · next message herror hmessage =>
    rw [presenceCall_parsed herror hmessage]
    refine After.bind (Q := fun a new => a = plan.freshId ∧ new = trace) ⟨rfl, rfl⟩ ?_
    rintro freshId new ⟨rfl, rfl⟩
    refine After.bind (Q := fun r new' =>
      (r, new') = s.presence.observe lib.json parsed.rows (lib.utcDate result.responseReceivedTs)
        (parseContext result message) plan.freshId plan.ops.appendPresence new) rfl ?_
    rintro ⟨p, outcome⟩ new' h
    rw [observe_trace] at h
    obtain ⟨h1, rfl⟩ := Prod.mk.inj h
    simp only [← h1]
    cases outcome with
    | error e => exact ⟨rfl, rfl⟩
    | ok details => exact ⟨rfl, rfl⟩
  · next hnot =>
    rw [presenceCall_unparsed fun message herror hmessage => hnot message herror hmessage]
    exact ⟨rfl, (List.append_nil trace).symm⟩

/-- The event of a response with a payload reports its call. -/
theorem reports_eventOf (hfeed : result.feedName = .tripupdates) (changed : Bool)
    (outcome : Option (Except PyError Details)) (tracked : Tracked) (raw : RawOutcome)
    (flags : List String) :
    Reports (eventOf lib result payload parsed changed (presenceOutcome outcome) tracked raw flags)
      result parsed.ok outcome where
  pollId := rfl
  success := rfl
  required := by simp [eventOf, hfeed]
  ok := by simp [eventOf, hfeed]
  details := rfl
  parsed := rfl

/-- One event at most came into the journal of a date, and it is as it should be. -/
def OneEvent (lineKept : Bool) (date : String) (P : JournalEvent → Prop) (old new : Trace) :
    Prop :=
  journalled lineKept new = journalled lineKept old ∨
    ∃ event, P event ∧ journalled lineKept new = journalled lineKept old ++ [(date, event)]

theorem appendEvent_call (hfeed : result.feedName = .tripupdates) (lineKept : Bool)
    (event : JournalEvent) :
    After (appendEvent lib plan.ops s result event) trace fun r new =>
      (∃ monitor, r.1 = { s with monitor }) ∧ records new = records trace ∧
      OneEvent lineKept (lib.utcDate result.responseReceivedTs) (· = event) trace new := by
  refine (appendEvent_after lib plan s result trace event).mono ?_
  rintro r new ⟨hr, -, rfl⟩
  refine ⟨hr, ?_, ?_⟩
  · rw [records_append]
    exact List.append_nil _
  · rw [OneEvent, journalled_append, hfeed]
    unfold journalled
    rw [List.filterMap_cons, List.filterMap_nil, keptEvent]
    split_ifs with hkept
    · exact Or.inr ⟨event, rfl, rfl⟩
    · exact Or.inl (List.append_nil _)

theorem finish_call (hfeed : result.feedName = .tripupdates) (lineKept : Bool) (changed : Bool)
    (presence : PresenceOutcome) (tracked : Tracked) (raw : RawOutcome) :
    After (finish c lib plan.ops s result payload parsed changed presence tracked raw) trace
      fun r new => r.1.presence = s.presence ∧ records new = records trace ∧
        OneEvent lineKept (lib.utcDate result.responseReceivedTs)
          (fun event => ∃ flags, event =
            eventOf lib result payload parsed changed presence tracked raw flags) trace new := by
  unfold finish
  refine After.bind (Q := fun r new => r = plan.health ∧
    ∃ monitor, new = trace ++ [.health monitor r]) ⟨rfl, _, rfl⟩ ?_
  rintro r new ⟨-, monitor, rfl⟩
  have hhealth : ∀ monitor outcome,
      Adds StorageEvent.IsQuiet trace (trace ++ [.health monitor outcome]) :=
    fun _ _ => Adds.one trivial
  cases r with
  | error e =>
    obtain ⟨hrecords, hjournal⟩ := quiet_adds (hhealth monitor (.error e)) lineKept
    exact ⟨rfl, hrecords, Or.inl hjournal⟩
  | ok u =>
    refine (appendEvent_call lib plan _ result _ hfeed lineKept _).bind ?_
    rintro ⟨s', appended⟩ new ⟨⟨monitor', hs'⟩, hrecords, hevent⟩
    refine (journalFallback_after c lib plan s' result payload _ appended raw.archived).bind ?_
    rintro s'' new' ⟨⟨raw', hs''⟩, hadds, -⟩
    subst hs' hs''
    obtain ⟨hrecords0, hjournal0⟩ := quiet_adds (hhealth monitor (.ok u)) lineKept
    obtain ⟨hrecords1, hjournal1⟩ := quiet_adds (hadds.mono quiet_of_raw) lineKept
    refine ⟨rfl, hrecords1.trans (hrecords.trans hrecords0), ?_⟩
    show OneEvent lineKept _ _ trace new'
    rw [OneEvent, hjournal1, ← hjournal0]
    rcases hevent with hevent | ⟨event, rfl, hevent⟩
    · exact Or.inl hevent
    · exact Or.inr ⟨_, ⟨_, rfl⟩, hevent⟩

/-- The call leaves no event. -/
theorem journalled_presenceCall (lineKept : Bool) (p : TripUpdatePresence) :
    journalled lineKept (presenceCall lib plan p result parsed).trace = [] := by
  unfold presenceCall
  split
  · next message _ _ =>
    dsimp only
    rcases hprepare : p.prepare lib.json parsed.rows (lib.utcDate result.responseReceivedTs)
      (parseContext result message) plan.freshId with ⟨p', e | ⟨record, current⟩⟩
    · rw [observe_refused [] hprepare]
      rfl
    · rw [observe_recorded [] hprepare]
      rfl
  · rfl

theorem advanceAuxiliary_presence (raw : RawOutcome) :
    (advanceAuxiliary lib s result parsed raw).presence = s.presence := by
  unfold advanceAuxiliary
  split
  · split <;> rfl
  · rfl

/-- **A response with a payload**: presence is as the call of `observe` leaves it, the records are
those of the call, and an event in the journal reports the call. -/
theorem processPayload_call (hfeed : result.feedName = .tripupdates) (lineKept : Bool) :
    After (processPayload c lib plan.ops s result payload) trace fun r new =>
      let call := presenceCall lib plan s.presence result (parsePayload lib result payload)
      r.1.presence = call.presence ∧ records new = records trace ++ records call.trace ∧
      OneEvent lineKept (lib.utcDate result.responseReceivedTs)
        (fun event => Reports event result (parsePayload lib result payload).ok call.outcome)
        trace new := by
  unfold processPayload
  refine (archive_after c lib plan s result payload trace .regular false).bind ?_
  rintro ⟨s1, raw1⟩ t1 ⟨⟨memory1, hs1⟩, hadds1, -⟩
  obtain rfl : s1 = _ := hs1
  refine (archiveUnless_after c lib plan _ result payload t1 .auxiliary _ raw1).bind ?_
  rintro ⟨s2, raw2⟩ t2 ⟨⟨memory2, hs2⟩, hadds2, -⟩
  obtain rfl : s2 = _ := hs2
  refine (observePresence_call lib plan _ result _ t2 hfeed).bind ?_
  rintro ⟨s3, presence⟩ t3 ⟨hs3, rfl⟩
  obtain ⟨rfl, rfl⟩ := Prod.mk.inj hs3
  dsimp only
  set call := presenceCall lib plan s.presence result (parsePayload lib result payload)
  refine (trackRows_after lib plan _ result _ _).bind ?_
  rintro ⟨s4, tracked⟩ t4 ⟨⟨trackers, hs4⟩, hadds4, -⟩
  obtain rfl : s4 = _ := hs4
  refine (archiveUnless_after c lib plan _ result payload t4 .fallback _ raw2).bind ?_
  rintro ⟨s5, raw5⟩ t5 ⟨⟨memory5, hs5⟩, hadds5, -⟩
  obtain rfl : s5 = _ := hs5
  refine (finish_call c lib plan _ result payload _ t5 hfeed lineKept _ _ tracked raw5).mono ?_
  rintro r new ⟨hpresence, hrecords, hevent⟩
  -- of what came before the end only the call left a record, and nothing an event
  obtain ⟨hrecords2, hjournal2⟩ :=
    quiet_adds ((hadds1.mono quiet_of_raw).trans (hadds2.mono quiet_of_raw)) lineKept
  obtain ⟨hrecords5, hjournal5⟩ :=
    quiet_adds ((hadds4.mono quiet_of_stage).trans (hadds5.mono quiet_of_raw)) lineKept
  have hcall : journalled lineKept call.trace = [] := journalled_presenceCall lib plan result _ _ _
  rw [records_append, hrecords2] at hrecords5
  rw [journalled_append, hjournal2, hcall, List.append_nil] at hjournal5
  refine ⟨?_, hrecords.trans hrecords5, ?_⟩
  · rw [hpresence, advanceAuxiliary_presence]
  · rw [OneEvent, ← hjournal5]
    refine hevent.imp_right ?_
    rintro ⟨event, ⟨flags, rfl⟩, h⟩
    exact ⟨_, reports_eventOf lib result payload _ hfeed _ _ tracked raw5 flags, h⟩

/-- A response without a payload: a gap, and an event of a failed request. -/
theorem processFailure_call (hfeed : result.feedName = .tripupdates) (lineKept : Bool) :
    After (processFailure lib plan.ops s result) trace fun r new =>
      r.1.presence = s.presence.invalidate "http_observation_gap" ∧
      records new = records trace ∧
      OneEvent lineKept (lib.utcDate result.responseReceivedTs)
        (fun event => event.pollId = result.pollId ∧ event.feed = .tripupdates ∧
          event.success = false) trace new := by
  unfold processFailure
  refine After.bind (Q := fun r new => r = plan.health ∧
    ∃ monitor, new = trace ++ [.health monitor r]) ⟨rfl, _, rfl⟩ ?_
  rintro r new ⟨-, monitor, rfl⟩
  have hpresence := gap_presence s hfeed "http_observation_gap"
  have hadds : Adds StorageEvent.IsQuiet trace (trace ++ [.health monitor r]) := Adds.one trivial
  obtain ⟨hrecords, hjournal⟩ := quiet_adds hadds lineKept
  cases r with
  | error e => exact ⟨hpresence, hrecords, Or.inl hjournal⟩
  | ok u =>
    refine (appendEvent_call lib plan _ result _ hfeed lineKept _).bind ?_
    rintro ⟨s', appended⟩ new ⟨⟨monitor', hs'⟩, hrecords', hevent⟩
    obtain rfl : s' = _ := hs'
    refine ⟨hpresence, hrecords'.trans hrecords, ?_⟩
    show OneEvent _ _ _ _ new
    rw [OneEvent, ← hjournal]
    refine hevent.imp_right ?_
    rintro ⟨event, rfl, h⟩
    exact ⟨_, ⟨rfl, hfeed, rfl⟩, h⟩

/-- Quiet events before a response make no difference. -/
theorem OneEvent.of_quiet {lineKept : Bool} {date : String} {P : JournalEvent → Prop}
    {old new : Trace} (h : OneEvent lineKept date P old new)
    (hadds : Adds StorageEvent.IsQuiet [] old) :
    journalled lineKept new = [] ∨ ∃ event, P event ∧ journalled lineKept new = [(date, event)] := by
  have hnone : journalled lineKept old = [] := (quiet_adds hadds lineKept).2
  rw [OneEvent, hnone] at h
  exact h

theorem quiet_runMetadata {old new : Trace}
    (h : Adds (· = .runMetadata plan.runMetadata) old new) : Adds StorageEvent.IsQuiet old new :=
  h.mono fun _ hev => hev ▸ trivial

/-- **A response with a payload**, processed as a whole. -/
theorem process_call (hfeed : result.feedName = .tripupdates)
    (hpayload : result.payload = some payload) (lineKept : Bool) :
    let call := presenceCall lib plan s.presence result (parsePayload lib result payload)
    (process c lib plan s result).1.1.presence = call.presence ∧
    records (process c lib plan s result).2 = records call.trace ∧
    (journalled lineKept (process c lib plan s result).2 = [] ∨
      ∃ event, Reports event result (parsePayload lib result payload).ok call.outcome ∧
        journalled lineKept (process c lib plan s result).2 =
          [(lib.utcDate result.responseReceivedTs, event)]) := by
  intro call
  have h : After (processResult c lib plan.ops s result) [] fun r new =>
      r.1.presence = call.presence ∧ records new = records call.trace ∧
      (journalled lineKept new = [] ∨
        ∃ event, Reports event result (parsePayload lib result payload).ok call.outcome ∧
          journalled lineKept new = [(lib.utcDate result.responseReceivedTs, event)]) := by
    refine (writeRunMetadata_after plan s []).bind ?_
    rintro s0 t0 ⟨⟨written, rfl⟩, hadds⟩
    have hquiet := quiet_runMetadata plan hadds
    rw [hpayload]
    refine (processPayload_call c lib plan _ result payload t0 hfeed lineKept).mono ?_
    rintro r new ⟨hpresence, hrecords, hevent⟩
    refine ⟨hpresence, ?_, hevent.of_quiet hquiet⟩
    rw [hrecords, (quiet_adds hquiet lineKept).1]
    rfl
  exact h

/-- **A response without a payload**, processed as a whole. -/
theorem process_gap (hfeed : result.feedName = .tripupdates) (hpayload : result.payload = none)
    (lineKept : Bool) :
    (process c lib plan s result).1.1.presence = s.presence.invalidate "http_observation_gap" ∧
    records (process c lib plan s result).2 = [] ∧
    (journalled lineKept (process c lib plan s result).2 = [] ∨
      ∃ event, (event.pollId = result.pollId ∧ event.feed = .tripupdates ∧ event.success = false) ∧
        journalled lineKept (process c lib plan s result).2 =
          [(lib.utcDate result.responseReceivedTs, event)]) := by
  have h : After (processResult c lib plan.ops s result) [] fun r new =>
      r.1.presence = s.presence.invalidate "http_observation_gap" ∧ records new = [] ∧
      (journalled lineKept new = [] ∨
        ∃ event, (event.pollId = result.pollId ∧ event.feed = .tripupdates ∧
            event.success = false) ∧
          journalled lineKept new = [(lib.utcDate result.responseReceivedTs, event)]) := by
    refine (writeRunMetadata_after plan s []).bind ?_
    rintro s0 t0 ⟨⟨written, rfl⟩, hadds⟩
    have hquiet := quiet_runMetadata plan hadds
    rw [hpayload]
    refine (processFailure_call lib plan _ result t0 hfeed lineKept).mono ?_
    rintro r new ⟨hpresence, hrecords, hevent⟩
    refine ⟨hpresence, ?_, hevent.of_quiet hquiet⟩
    rw [hrecords, (quiet_adds hquiet lineKept).1]
    rfl
  exact h

/-- What any response leaves: quiet events, presence records, and events of its own feed. -/
def StorageEvent.IsOf (feed : Feed) (ev : StorageEvent) : Prop :=
  StorageEvent.IsQuiet ev ∨ Outcomes.StorageEvent.IsPresence ev ∨
    ∃ date event outcome, ev = .journal feed date event outcome

theorem appendEvent_adds (event : JournalEvent) :
    After (appendEvent lib plan.ops s result event) trace fun _ new =>
      Adds (StorageEvent.IsOf result.feedName) trace new := by
  refine (appendEvent_after lib plan s result trace event).mono ?_
  rintro r new ⟨-, -, rfl⟩
  exact Adds.one (Or.inr (Or.inr ⟨_, _, _, rfl⟩))

theorem finish_adds (changed : Bool) (presence : PresenceOutcome) (tracked : Tracked)
    (raw : RawOutcome) :
    After (finish c lib plan.ops s result payload parsed changed presence tracked raw) trace
      fun _ new => Adds (StorageEvent.IsOf result.feedName) trace new := by
  unfold finish
  refine After.bind (Q := fun r new => ∃ monitor, new = trace ++ [.health monitor r])
    ⟨_, rfl⟩ ?_
  rintro r new ⟨monitor, rfl⟩
  have hhealth : Adds (StorageEvent.IsOf result.feedName) trace (trace ++ [.health monitor r]) :=
    Adds.one (Or.inl trivial)
  cases r with
  | error e => exact hhealth
  | ok u =>
    refine (appendEvent_adds lib plan _ result _ _).bind ?_
    rintro ⟨s', appended⟩ new hevent
    refine (journalFallback_after c lib plan s' result payload _ appended raw.archived).bind ?_
    rintro s'' new' ⟨-, hadds, -⟩
    exact (hhealth.trans hevent).trans (hadds.mono fun ev hev => Or.inl (quiet_of_raw ev hev))

theorem processPayload_adds :
    After (processPayload c lib plan.ops s result payload) trace fun _ new =>
      Adds (StorageEvent.IsOf result.feedName) trace new := by
  have hraw : ∀ ev, Outcomes.StorageEvent.IsRaw ev → StorageEvent.IsOf result.feedName ev :=
    fun ev hev => Or.inl (quiet_of_raw ev hev)
  unfold processPayload
  refine (archive_after c lib plan s result payload trace .regular false).bind ?_
  rintro ⟨s1, raw1⟩ t1 ⟨-, hadds1, -⟩
  refine (archiveUnless_after c lib plan _ result payload t1 .auxiliary _ raw1).bind ?_
  rintro ⟨s2, raw2⟩ t2 ⟨-, hadds2, -⟩
  refine (observePresence_after lib plan _ result _ t2).bind ?_
  rintro ⟨s3, presence⟩ t3 ⟨p, evs, -, rfl, hstep⟩
  have hadds3 : Adds (StorageEvent.IsOf result.feedName) t2 (t2 ++ evs) :=
    ⟨evs, rfl, fun ev hev => Or.inr (Or.inl (hstep.isPresence ev hev))⟩
  refine (trackRows_after lib plan _ result _ _).bind ?_
  rintro ⟨s4, tracked⟩ t4 ⟨-, hadds4, -⟩
  refine (archiveUnless_after c lib plan _ result payload t4 .fallback _ raw2).bind ?_
  rintro ⟨s5, raw5⟩ t5 ⟨-, hadds5, -⟩
  refine (finish_adds c lib plan _ result payload _ t5 _ presence tracked raw5).mono ?_
  intro r new hadds6
  have hstage := hadds4.mono fun ev hev => (Or.inl (quiet_of_stage ev hev) :
    StorageEvent.IsOf result.feedName ev)
  exact ((((hadds1.mono hraw).trans (hadds2.mono hraw)).trans hadds3).trans hstage).trans
    ((hadds5.mono hraw).trans hadds6)

/-- **A response of another feed** leaves no presence record and no event of TripUpdates. -/
theorem process_other_call (hfeed : result.feedName ≠ .tripupdates) (lineKept : Bool) :
    records (process c lib plan s result).2 = [] ∧
    journalled lineKept (process c lib plan s result).2 = [] := by
  have hadds : Adds (StorageEvent.IsOf result.feedName) [] (process c lib plan s result).2 := by
    refine After.bind (P := fun _ new => Adds (StorageEvent.IsOf result.feedName) [] new)
      (writeRunMetadata_after plan s []) ?_
    rintro s0 t0 ⟨-, hadds0⟩
    have hadds0 : Adds (StorageEvent.IsOf result.feedName) [] t0 :=
      hadds0.mono fun ev hev => Or.inl (hev ▸ trivial)
    cases hpayload : result.payload with
    | none =>
      unfold processFailure
      refine After.bind (Q := fun r new => ∃ monitor, new = t0 ++ [.health monitor r])
        ⟨_, rfl⟩ ?_
      rintro r new ⟨monitor, rfl⟩
      have hhealth : Adds (StorageEvent.IsOf result.feedName) t0 (t0 ++ [.health monitor r]) :=
        Adds.one (Or.inl trivial)
      cases r with
      | error e => exact hadds0.trans hhealth
      | ok u =>
        refine (appendEvent_adds lib plan _ result _ _).bind ?_
        rintro ⟨s', appended⟩ new hevent
        exact hadds0.trans (hhealth.trans hevent)
    | some payload =>
      exact (processPayload_adds c lib plan s0 result payload t0).mono fun r new h => hadds0.trans h
  have hpresence : presenceEvents (process c lib plan s result).2 = [] := by
    cases hpayload : result.payload with
    | none => exact (process_presence_none c lib plan s result hpayload).2
    | some payload =>
      obtain ⟨ok, hstep⟩ := process_presence_some c lib plan s result payload hpayload
      generalize (process c lib plan s result).1.1.presence = p at hstep
      generalize presenceEvents (process c lib plan s result).2 = evs at hstep ⊢
      cases hstep with
      | other => rfl
      | unparsed h => exact absurd h hfeed
      | refused h => exact absurd h hfeed
      | appended h => exact absurd h hfeed
  obtain ⟨evs, htrace, hevs⟩ := hadds
  rw [List.nil_append] at htrace
  rw [htrace] at hpresence ⊢
  have hnone := List.filter_eq_nil_iff.mp hpresence
  constructor
  · refine List.filterMap_eq_nil_iff.mpr fun ev hev => ?_
    have hnot := hnone ev hev
    cases ev <;> first | rfl | exact absurd (decide_eq_true trivial) hnot
  · refine List.filterMap_eq_nil_iff.mpr fun ev hev => ?_
    rcases hevs ev hev with hquiet | hpresence | ⟨date, event, outcome, rfl⟩
    · cases ev <;> first | rfl | exact absurd hquiet id
    · cases ev <;> first | rfl | exact absurd hpresence id
    · unfold keptEvent
      split
      · next h => exact absurd (by injection h) hfeed
      · rfl

end steps

end BkkCollector.Collector.PollEvents
