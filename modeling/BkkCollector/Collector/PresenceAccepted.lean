import BkkCollector.Archive.PresenceStats
import BkkCollector.Collector.PollEvents

/-! # The manifest accepts the presence evidence

The check of the daily manifest replays the presence log of a date and compares it with the poll
journal. The collector writes both, record first and event last, and either may miss an entry that
the other has: a record whose append failed may still be in the log, an event whose append failed
may or may not be in the journal.

`Accepted` says what keeps the two together over a run: every log passes the check, a writer that
holds a membership stands at the end of the log of its date, and every poll that the journal says
was observed has its record in the log.

* `presence_accepted`: in every run the check of every date finds no error, confirms the polls whose
  `observe` returned and counts as unavailable those whose `observe` raised. -/

namespace BkkCollector.Collector.PresenceAccepted

open BkkCollector.Python.Objects BkkCollector.Python.Documents BkkCollector.Config
open BkkCollector.Monitoring
open BkkCollector.Archive.Remote BkkCollector.Archive.Checks BkkCollector.Archive.PresenceStats
open BkkCollector.Archive.StaticTimeline (field valueKey)
open BkkCollector.Realtime.Dedup BkkCollector.Realtime.PresenceLog
open BkkCollector.Realtime.DedupFlow (defaultConfig)
open BkkCollector.Realtime.PresenceReplay BkkCollector.Realtime.TripUpdatePolicy
open BkkCollector.Collector.ProcessResult BkkCollector.Collector.Outcomes
open BkkCollector.Collector.PresenceGaps (Input handle handle_result process_other gap_presence
  gap_other)
open BkkCollector.Collector.PollEvents

/-! ### Runs -/

/-- A poll of TripUpdates in the journal: the date of its file, its event, and what `observe` came
to if it was called. -/
structure Poll where
  date : String
  event : JournalEvent
  call : Option (Except PyError Details)

/-- The call of `observe` returned. -/
def Poll.returned (poll : Poll) : Bool := (presenceOutcome poll.call).ok

/-- The call of `observe` raised. -/
def Poll.raised (poll : Poll) : Bool := (presenceOutcome poll.call).error.isSome

/-- The collector, the presence records in file order, and the polls in the journal. -/
structure World where
  state : CollectorState
  records : List (String × Record) := []
  polls : List Poll := []

/-- The presence log of a date. -/
def World.log (w : World) (date : String) : List Record :=
  (w.records.filter fun r => r.1 = date).map Prod.snd

/-- The polls in the journal of a date. -/
def World.pollsOf (w : World) (date : String) : List Poll := w.polls.filter fun p => p.date = date

/-- The journal of a date, as it is read. -/
def World.journal (w : World) (date : String) : List Doc :=
  (w.pollsOf date).map fun poll => toDoc poll.event

/-- The call of `observe` an input leads to. -/
def callOf (lib : Libraries) (s : CollectorState) : Input → Option (Except PyError Details)
  | .result _ plan result =>
    result.payload.bind fun payload =>
      (presenceCall lib plan s.presence result (parsePayload lib result payload)).outcome
  | _ => none

/-- What a collector is handed, and whether the line of a journal append that fails is in the file
all the same. -/
structure Step where
  input : Input
  lineKept : Bool := false

/-- One input. -/
def World.step (c : CollectorConfig) (lib : Libraries) (w : World) (step : Step) : World :=
  let (state, trace) := handle c lib w.state step.input
  { state
    records := w.records ++ PollEvents.records trace
    polls := w.polls ++ (journalled step.lineKept trace).map fun event =>
      ⟨event.1, event.2, callOf lib w.state step.input⟩ }

/-- A run. -/
def World.run (c : CollectorConfig) (lib : Libraries) (w : World) (steps : List Step) : World :=
  steps.foldl (World.step c lib) w

/-- A new collector in an empty data directory. -/
def World.start (c : CollectorConfig) (runId streamId : String) (feeds : Feed → FeedHealth) :
    World where
  state := CollectorState.start c runId streamId feeds

/-- The poll id of a TripUpdates result. -/
def Step.pollIds (step : Step) : List String :=
  match step.input with
  | .result _ _ result => if result.feedName = .tripupdates then [result.pollId] else []
  | _ => []

/-- The rows of a TripUpdates result are the parser's: identities are strings, integers or null. -/
def Step.Parsed (lib : Libraries) (step : Step) : Prop :=
  match step.input with
  | .result _ _ result => result.feedName = .tripupdates → ∀ payload ∈ result.payload,
    ∀ row ∈ (parsePayload lib result payload).rows, ParsedRow row
  | _ => True

/-- A log without a torn tail, as the check finds it; an empty log may have no file. -/
inductive Whole (records : List Record) : Option PresenceFile → Prop
  | file : Whole records (some { records })
  | missing (h : records = []) : Whole records none

/-! ### The events as the check reads them -/

/-- What the check reads of a poll. -/
structure Readable (poll : Poll) : Prop where
  pollId : (toDoc poll.event).item "poll_id" = .ok (.str poll.event.pollId)
  promises : promises (toDoc poll.event) = .ok poll.returned
  expects : expects (toDoc poll.event) = .ok poll.call.isSome
  legacy : isLegacy (toDoc poll.event) = .ok false
  evidence : ∀ details, poll.call = some (.ok details) →
    field (toDoc poll.event) "presence_stream_id" = .str details.streamId ∧
    field (toDoc poll.event) "presence_sequence" = .int details.sequence ∧
    field (toDoc poll.event) "presence_source_timestamps_version" =
      .int details.sourceTimestampsVersion

theorem lookup_responseMembers (e : JournalEvent) :
    (responseMembers e).lookup "poll_id" = some (.str e.pollId) ∧
    (responseMembers e).lookup "presence_required" = some (.bool e.presenceRequired) ∧
    (responseMembers e).lookup "presence_ok" = some (boolOrNull e.presenceOk) ∧
    (responseMembers e).lookup "parse_ok" = some (.bool e.parseOk) := by
  cases hdetails : e.presenceDetails <;>
    simp [responseMembers, detailMembers, hdetails, List.lookup]

theorem lookup_detailMembers {e : JournalEvent} {details : Details}
    (h : e.presenceDetails = some details) :
    (responseMembers e).lookup "presence_stream_id" = some (.str details.streamId) ∧
    (responseMembers e).lookup "presence_sequence" = some (.int details.sequence) ∧
    (responseMembers e).lookup "presence_source_timestamps_version" =
      some (.int details.sourceTimestampsVersion) := by
  simp [responseMembers, detailMembers, h, List.lookup]

/-- An event that reports its call is read as it was meant. -/
theorem readable_of_reports {date : String} {event : JournalEvent} {result : FetchResult}
    {call : Option (Except PyError Details)} (h : Reports event result call.isSome call) :
    Readable ⟨date, event, call⟩ := by
  obtain ⟨hid, hrequired, hok, hparsed⟩ := lookup_responseMembers event
  rw [h.required] at hrequired
  rw [h.ok] at hok
  rw [h.parsed] at hparsed
  have hdoc : toDoc event = .dict (responseMembers event) := by rw [toDoc, h.success]; rfl
  constructor
  · simp only [hdoc, Doc.item, hid]
  · simp only [hdoc, promises, Doc.get_dict, hrequired, hok]
    rfl
  · simp only [hdoc, expects, Doc.get_dict, hrequired, hparsed]
    rfl
  · simp only [hdoc, isLegacy, Doc.get_dict, hrequired, hparsed]
    cases call <;> rfl
  · rintro details rfl
    obtain ⟨hstream, hsequence, hversion⟩ := lookup_detailMembers h.details
    simp [hdoc, field, hstream, hsequence, hversion]

/-- An event of a failed request: presence is required, and not there. -/
theorem readable_of_failure {date : String} {event : JournalEvent}
    (hfeed : event.feed = .tripupdates) (hfailure : event.success = false) :
    Readable ⟨date, event, none⟩ := by
  have hdoc : toDoc event = .dict (failureMembers event) := by rw [toDoc, hfailure]; rfl
  have hrequired : (failureMembers event).lookup "presence_required" = some (.bool true) := by
    simp [failureMembers, hfeed, List.lookup]
  have hok : (failureMembers event).lookup "presence_ok" = some (.bool false) := by
    simp [failureMembers, hfeed, List.lookup]
  have hparsed : (failureMembers event).lookup "parse_ok" = some (.bool false) := by
    simp [failureMembers, List.lookup]
  constructor
  · simp [hdoc, Doc.item, failureMembers, List.lookup]
  · simp only [hdoc, promises, Doc.get_dict, hrequired, hok]
    rfl
  · simp only [hdoc, expects, Doc.get_dict, hrequired, hparsed]
    rfl
  · simp only [hdoc, isLegacy, Doc.get_dict, hrequired, hparsed]
    rfl
  · exact fun details h => by cases h

/-- The promises of a journal, in its order. -/
theorem promisedItems_journal {polls : List Poll} (h : ∀ poll ∈ polls, Readable poll) :
    promisedItems (polls.map fun poll => toDoc poll.event) =
      .ok ((polls.filter Poll.returned).map fun poll =>
        (.str poll.event.pollId, toDoc poll.event)) := by
  induction polls with
  | nil => rfl
  | cons poll polls ih =>
    obtain ⟨hpoll, hpolls⟩ := List.forall_mem_cons.mp h
    rw [List.map_cons, promisedItems, hpoll.promises, ih hpolls]
    by_cases hreturned : poll.returned = true
    · rw [List.filter_cons_of_pos hreturned, hpoll.pollId, hreturned]
      rfl
    · rw [List.filter_cons_of_neg hreturned, Bool.eq_false_iff.mpr hreturned]
      rfl

/-- The polls a count takes in. -/
theorem countEvents_journal {p : Doc → Except PyError Bool} {q : Poll → Bool} {polls : List Poll}
    (h : ∀ poll ∈ polls, p (toDoc poll.event) = .ok (q poll)) :
    countEvents p (polls.map fun poll => toDoc poll.event) = .ok (polls.filter q).length := by
  induction polls with
  | nil => rfl
  | cons poll polls ih =>
    obtain ⟨hpoll, hpolls⟩ := List.forall_mem_cons.mp h
    rw [List.map_cons, countEvents, hpoll, ih hpolls]
    by_cases hq : q poll = true
    · rw [List.filter_cons_of_pos hq, hq, List.length_cons, Nat.add_comm]
      rfl
    · rw [List.filter_cons_of_neg hq, Bool.eq_false_iff.mpr hq]
      show Except.ok (0 + _) = _
      rw [Nat.zero_add]

/-! ### The invariant -/

/-- **The writer and its files**: every log passes the check, and a writer that holds a membership
is at the end of the log of its date. -/
structure Continued (p : TripUpdatePresence) (log : String → List Record) : Prop where
  checks : ∀ date, ∃ s, checkRecords [] {} (log date) = (s, none)
  held : ∀ o ∈ lastObservation p, ObservationOk o ∧ ∃ date, p.date = some date ∧
    ∃ s, checkRecords [] {} (log date) = (s, none) ∧ s.stream = some p.streamId ∧
      s.sequence = p.sequence ∧ Knows ⟨s.members, s.sourceTimestamps⟩ o

/-- **The invariant of a run**; `used` are the poll ids so far. -/
structure Accepted (used : List String) (w : World) : Prop where
  continued : Continued w.state.presence w.log
  versions : ∀ r ∈ w.records, r.2.sourceTimestampsVersion = some sourceTimestampsVersion
  recordIds : ∀ r ∈ w.records, r.2.context.pollId ∈ used
  recordsNodup : (w.records.map fun r => r.2.context.pollId).Nodup
  pollIds : ∀ poll ∈ w.polls, poll.event.pollId ∈ used
  pollsNodup : (w.polls.map fun poll => poll.event.pollId).Nodup
  readable : ∀ poll ∈ w.polls, Readable poll
  confirmed : ∀ poll ∈ w.polls, ∀ details, poll.call = some (.ok details) →
    ∃ record, (poll.date, record) ∈ w.records ∧ record.context.pollId = poll.event.pollId ∧
      details = record.details poll.date

/-! ### One observation -/

section observation

variable {json : Json} {p : TripUpdatePresence} {log : String → List Record}

/-- A log with another record. -/
def logWith (log : String → List Record) (date : String) (record : Record) :
    String → List Record :=
  Function.update log date (log date ++ [record])

theorem continued_of_members_none (hchecks : ∀ date, ∃ s, checkRecords [] {} (log date) = (s, none))
    (hp : p.members = none) : Continued p log :=
  ⟨hchecks, fun o ho => by simp [lastObservation, hp] at ho⟩

theorem Continued.switchDate (h : Continued p log) (date : String) :
    Continued (p.switchDate date) log where
  checks := h.checks
  held o ho := by
    have heq : p.switchDate date = p := switchDate_eq ho
    rw [heq] at ho ⊢
    exact h.held o ho

/-- `observe` up to the append: refused, or with a record to append. -/
theorem prepare_cases (json : Json) (p : TripUpdatePresence) (rows : List Row)
    (date freshId : String) (context : Context) :
    (∃ p' e, p.prepare json rows date context freshId = (p', .error e) ∧
      (p'.members = none ∨ p' = p.switchDate date)) ∨
    ∃ record, p.prepare json rows date context freshId =
        (p.switchDate date, .ok (record, observation rows)) ∧
      (p.switchDate date).encode json (observation rows) context freshId = .ok record := by
  unfold TripUpdatePresence.prepare
  split
  · exact Or.inl ⟨_, _, rfl, Or.inl rfl⟩
  · dsimp only
    split
    · exact Or.inl ⟨_, _, rfl, Or.inl rfl⟩
    · cases hencode : (p.switchDate date).encode json (observation rows) context freshId with
      | error e => exact Or.inl ⟨_, e, rfl, Or.inr rfl⟩
      | ok record => exact Or.inr ⟨record, rfl, rfl⟩

/-- The fields of a record that the check reads. -/
theorem encode_fields {current : Observation} {context : Context} {freshId : String}
    {record : Record} (h : p.encode json current context freshId = .ok record) :
    record.context = context ∧
    record.sourceTimestampsVersion = some sourceTimestampsVersion ∧
    record.kind = (if p.members.isNone then .baseline else .delta) ∧
    record.streamId = (if p.members.isNone then freshId else p.streamId) ∧
    record.sequence = if p.members.isNone then 1 else p.sequence + 1 := by
  simp only [TripUpdatePresence.encode, bind_eq_ok, pure_eq_ok] at h
  obtain ⟨trips, -, changes, -, rfl⟩ := h
  exact ⟨rfl, rfl, rfl, rfl, rfl⟩

/-- **The next record passes**: a writer that knows the end of the log continues its stream, and one
that lost track starts another. -/
theorem Continued.check (h : Continued p log) {date : String} (hdate : p.date = some date)
    {current : Observation} (hcurrent : ObservationOk current) {context : Context}
    {freshId : String} {record : Record}
    (hencode : p.encode json current context freshId = .ok record)
    (hnew : ∀ earlier ∈ log date, earlier.context.pollId ≠ context.pollId) :
    ∃ s, checkRecords [] {} (log date ++ [record]) = (s, none) ∧
      s.stream = some record.streamId ∧ s.sequence = record.sequence ∧
      Knows ⟨s.members, s.sourceTimestamps⟩ current := by
  obtain ⟨s, hs⟩ := h.checks date
  have hheld : ∀ o ∈ lastObservation p, ObservationOk o ∧ s.stream = some p.streamId ∧
      s.sequence = p.sequence ∧ Knows ⟨s.members, s.sourceTimestamps⟩ o := by
    intro o ho
    obtain ⟨hok, date', hdate', s', hs', hrest⟩ := h.held o ho
    obtain rfl : date = date' := Option.some.inj (hdate.symm.trans hdate')
    obtain rfl : s = s' := congrArg Prod.fst (hs.symm.trans hs')
    exact ⟨hok, hrest⟩
  obtain ⟨r, happly, hknows⟩ := apply_encode hencode hcurrent
    (r := ⟨s.members, s.sourceTimestamps⟩) fun o ho => ⟨(hheld o ho).1, (hheld o ho).2.2.2⟩
  obtain ⟨hcontext, -, hkind, hstream, hsequence⟩ := encode_fields hencode
  have hseen : record.context.pollId ∉ s.seen.map Prod.fst := by
    rw [seen_checkRecords hs, hcontext]
    intro hmem
    obtain ⟨entry, hentry, heq⟩ := List.mem_map.mp hmem
    obtain ⟨earlier, hearlier, rfl⟩ := List.mem_map.mp ((List.nil_append _ ▸ hentry))
    exact hnew earlier hearlier heq
  have hmismatch : timestampsMismatch [] record = false := rfl
  -- where the record stands in its stream
  have hposition : (record.kind = .baseline → record.sequence = 1) ∧
      some record.streamId = (s.enter record).stream ∧
      record.sequence = (s.enter record).sequence + 1 := by
    unfold Checked.enter
    cases hmembers : p.members with
    | none =>
      rw [hmembers] at hkind hsequence
      have hbaseline : record.kind = .baseline := hkind
      rw [if_pos hbaseline]
      exact ⟨fun _ => hsequence, rfl, hsequence⟩
    | some members =>
      obtain ⟨-, hs1, hs2, -⟩ := hheld ⟨members, p.sourceTimestamps⟩ (by
        simp [lastObservation, hmembers])
      rw [hmembers] at hkind hsequence hstream
      have hdelta : record.kind ≠ .baseline := by
        rw [hkind]
        simp
      rw [if_neg hdelta, hs1, hs2]
      exact ⟨fun hb => absurd hb hdelta, congrArg some hstream, hsequence⟩
  refine ⟨_, checkRecords_concat hs (checkRecord_eq_none.mpr
    ⟨hposition.1, hposition.2.1, hposition.2.2, hmismatch, hseen, r, happly, rfl⟩), ?_, rfl, hknows⟩
  exact hposition.2.1.symm

/-- What the call of `observe` leaves: nothing, and it did not return; or a record of the poll that
continues the log of its date, which it describes if it returned. -/
inductive Left (date pollId : String) (log : String → List Record) (call : Call) : Prop
  | nothing (hrecords : PollEvents.records call.trace = [])
      (houtcome : ∀ details, call.outcome ≠ some (.ok details))
      (hcontinued : Continued call.presence log)
  | record (record : Record) (hrecords : PollEvents.records call.trace = [(date, record)])
      (hpollId : record.context.pollId = pollId)
      (hversion : record.sourceTimestampsVersion = some sourceTimestampsVersion)
      (houtcome : ∀ details, call.outcome = some (.ok details) → details = record.details date)
      (hcontinued : Continued call.presence (logWith log date record))

/-- **The call of `observe`.** -/
theorem Continued.call (h : Continued p log) (lib : Libraries) (plan : Plan)
    (result : FetchResult) (parsed : Parsed) (hrows : ∀ row ∈ parsed.rows, ParsedRow row)
    (hnew : ∀ earlier ∈ log (lib.utcDate result.responseReceivedTs),
      earlier.context.pollId ≠ result.pollId) :
    Left (lib.utcDate result.responseReceivedTs) result.pollId log
      (presenceCall lib plan p result parsed) := by
  unfold presenceCall
  split
  · next message _ _ =>
    dsimp only
    have hdate := switchDate_date p (lib.utcDate result.responseReceivedTs)
    have hswitch := h.switchDate (lib.utcDate result.responseReceivedTs)
    rcases prepare_cases lib.json p parsed.rows (lib.utcDate result.responseReceivedTs) plan.freshId
      (parseContext result message) with ⟨p', e, hprepare, hp'⟩ | ⟨record, hprepare, hencode⟩
    · rw [observe_refused [] hprepare]
      refine .nothing rfl (fun details hd => by cases hd) ?_
      rcases hp' with hnone | rfl
      · exact continued_of_members_none h.checks hnone
      · exact hswitch
    · rw [observe_recorded [] hprepare]
      obtain ⟨hcontext, hversion, -⟩ := encode_fields hencode
      obtain ⟨s, hs, hstream, hsequence, hknows⟩ :=
        hswitch.check hdate (observationOk hrows) hencode hnew
      have hchecks : ∀ date, ∃ s, checkRecords [] {}
          (logWith log (lib.utcDate result.responseReceivedTs) record date) = (s, none) := by
        intro date
        by_cases hd : date = lib.utcDate result.responseReceivedTs
        · subst hd
          exact ⟨s, by rw [logWith, Function.update_self, hs]⟩
        · obtain ⟨s', hs'⟩ := h.checks date
          exact ⟨s', by rw [logWith, Function.update_of_ne hd, hs']⟩
      have hpollId : record.context.pollId = result.pollId := by rw [hcontext]; rfl
      cases plan.presence with
      | written =>
        refine .record record rfl hpollId hversion (fun details hd => by cases hd; rfl) ⟨hchecks, ?_⟩
        intro o ho
        have ho' : some (observation parsed.rows) = some o := ho
        cases ho'
        refine ⟨observationOk hrows, _, hdate, s, ?_, hstream, hsequence, hknows⟩
        rw [logWith, Function.update_self, hs]
      | lost e =>
        exact .nothing rfl (fun details hd => by cases hd) (continued_of_members_none h.checks rfl)
      | durable e =>
        exact .record record rfl hpollId hversion (fun details hd => by cases hd)
          (continued_of_members_none hchecks rfl)
  · exact .nothing rfl (fun details hd => by cases hd) (continued_of_members_none h.checks rfl)

end observation

/-! ### One input -/

section step

variable {used : List String} {w : World}

theorem log_append (w : World) (state : CollectorState) (polls : List Poll) (date : String)
    (record : Record) :
    World.log ⟨state, w.records ++ [(date, record)], polls⟩ = logWith w.log date record := by
  funext d
  by_cases hd : d = date
  · subst hd
    simp [World.log, logWith]
  · have hne : ¬ date = d := fun h => hd h.symm
    simp [World.log, logWith, Function.update_of_ne hd, hne]

/-- A writer that lost track goes with any logs that pass. -/
theorem Continued.forget {p p' : TripUpdatePresence} {log : String → List Record}
    (h : Continued p log) (hp : p' = p ∨ p'.members = none) : Continued p' log := by
  rcases hp with rfl | hp
  · exact h
  · exact continued_of_members_none h.checks hp

/-- **A result**: what its call left in the log, and its poll in the journal or not. -/
theorem Accepted.result (h : Accepted used w) (polls : List Poll) {date pollId : String}
    {call : Call} (hleft : Left date pollId w.log call) (hid : pollId ∉ used) {s : CollectorState}
    (hs : s.presence = call.presence ∨ s.presence.members = none)
    (hpolls : polls = [] ∨ ∃ poll, polls = [poll] ∧ poll.date = date ∧
      poll.event.pollId = pollId ∧ Readable poll ∧ poll.call = call.outcome) :
    Accepted (used ++ [pollId]) ⟨s, w.records ++ PollEvents.records call.trace, w.polls ++ polls⟩ := by
  have hnew : ∀ poll ∈ polls, poll.event.pollId = pollId ∧ Readable poll := by
    rcases hpolls with rfl | ⟨poll, rfl, -, hpollId, hreadable, -⟩
    · exact fun poll hpoll => absurd hpoll List.not_mem_nil
    · exact List.forall_mem_singleton.mpr ⟨hpollId, hreadable⟩
  have hpollsNodup : (polls.map fun poll => poll.event.pollId).Nodup := by
    rcases hpolls with rfl | ⟨poll, rfl, -⟩
    · exact List.nodup_nil
    · exact List.nodup_singleton _
  have hpollIds : ∀ poll ∈ w.polls ++ polls, poll.event.pollId ∈ used ++ [pollId] := by
    intro poll hpoll
    rcases List.mem_append.mp hpoll with hpoll | hpoll
    · exact List.mem_append_left _ (h.pollIds poll hpoll)
    · rw [(hnew poll hpoll).1]
      exact List.mem_append_right _ (List.mem_singleton_self _)
  have hnodup : ((w.polls ++ polls).map fun poll => poll.event.pollId).Nodup := by
    rw [List.map_append]
    refine List.nodup_append.mpr ⟨h.pollsNodup, hpollsNodup, fun a ha b hb hab => ?_⟩
    obtain ⟨poll, hpoll, rfl⟩ := List.mem_map.mp ha
    obtain ⟨poll', hpoll', rfl⟩ := List.mem_map.mp hb
    rw [(hnew poll' hpoll').1] at hab
    exact hid (hab ▸ h.pollIds poll hpoll)
  have hreadable : ∀ poll ∈ w.polls ++ polls, Readable poll := by
    intro poll hpoll
    rcases List.mem_append.mp hpoll with hpoll | hpoll
    · exact h.readable poll hpoll
    · exact (hnew poll hpoll).2
  cases hleft with
  | nothing hrecords houtcome hcontinued =>
    rw [hrecords, List.append_nil]
    refine ⟨hcontinued.forget hs, h.versions, fun r hr => List.mem_append_left _ (h.recordIds r hr),
      h.recordsNodup, hpollIds, hnodup, hreadable, fun poll hpoll details hcall => ?_⟩
    rcases List.mem_append.mp hpoll with hpoll | hpoll
    · exact h.confirmed poll hpoll details hcall
    · rcases hpolls with rfl | ⟨poll', rfl, -, -, -, hcall'⟩
      · exact absurd hpoll List.not_mem_nil
      · obtain rfl := List.mem_singleton.mp hpoll
        exact absurd (hcall'.symm.trans hcall) (houtcome details)
  | record record hrecords hrecordId hversion houtcome hcontinued =>
    rw [hrecords]
    refine ⟨?_, ?_, ?_, ?_, hpollIds, hnodup, hreadable, fun poll hpoll details hcall => ?_⟩
    · rw [log_append]
      exact hcontinued.forget hs
    · intro r hr
      rcases List.mem_append.mp hr with hr | hr
      · exact h.versions r hr
      · rw [List.mem_singleton.mp hr]
        exact hversion
    · intro r hr
      rcases List.mem_append.mp hr with hr | hr
      · exact List.mem_append_left _ (h.recordIds r hr)
      · rw [List.mem_singleton.mp hr, hrecordId]
        exact List.mem_append_right _ (List.mem_singleton_self _)
    · rw [List.map_append]
      refine List.nodup_append.mpr ⟨h.recordsNodup, List.nodup_singleton _, fun a ha b hb hab => ?_⟩
      obtain ⟨r, hr, rfl⟩ := List.mem_map.mp ha
      have hsame : r.2.context.pollId = pollId :=
        (hab.trans (List.mem_singleton.mp hb)).trans hrecordId
      exact hid (hsame ▸ h.recordIds r hr)
    · rcases List.mem_append.mp hpoll with hpoll | hpoll
      · obtain ⟨record', hrecord', hrest⟩ := h.confirmed poll hpoll details hcall
        exact ⟨record', List.mem_append_left _ hrecord', hrest⟩
      · rcases hpolls with rfl | ⟨poll', rfl, hdate, hpollId, -, hcall'⟩
        · exact absurd hpoll List.not_mem_nil
        · obtain rfl := List.mem_singleton.mp hpoll
          refine ⟨record, List.mem_append_right _ ?_, ?_, ?_⟩
          · rw [hdate]
            exact List.mem_singleton_self _
          · rw [hrecordId, hpollId]
          · rw [hdate]
            exact houtcome details (hcall'.symm.trans hcall)

/-- An input that leaves neither record nor event. -/
theorem Accepted.quiet (h : Accepted used w) {s : CollectorState}
    (hs : s.presence = w.state.presence ∨ s.presence.members = none) :
    Accepted used ⟨s, w.records, w.polls⟩ :=
  { h with continued := h.continued.forget hs }

theorem parsePayload_feed {lib : Libraries} {result : FetchResult} {payload : Bytes}
    (h : (parsePayload lib result payload).error = none) :
    ∃ message, (parsePayload lib result payload).feed = some message := by
  unfold parsePayload at h ⊢
  cases hfeed : lib.parseFeed payload with
  | error e =>
    rw [hfeed] at h
    cases h
  | ok message =>
    dsimp only
    cases validateFeedEntities result.feedName message with
    | error e => exact ⟨message, rfl⟩
    | ok u => cases lib.parsers result.feedName message (parseContext result message) <;>
        exact ⟨message, rfl⟩

/-- `observe` is called for the responses that parse. -/
theorem isSome_presenceCall (lib : Libraries) (plan : Plan) (p : TripUpdatePresence)
    (result : FetchResult) (payload : Bytes) :
    (presenceCall lib plan p result (parsePayload lib result payload)).outcome.isSome =
      (parsePayload lib result payload).ok := by
  cases herror : (parsePayload lib result payload).error with
  | none =>
    obtain ⟨message, hmessage⟩ := parsePayload_feed herror
    rw [presenceCall_parsed herror hmessage, Parsed.ok, herror]
    rfl
  | some e =>
    rw [presenceCall_unparsed fun message h => absurd (herror.symm.trans h) (by simp), Parsed.ok,
      herror]
    rfl

/-- **One input.** -/
theorem Accepted.step (h : Accepted used w) (c : CollectorConfig) {lib : Libraries} {step : Step}
    (hrows : step.Parsed lib) (hids : ∀ id ∈ step.pollIds, id ∉ used) :
    Accepted (used ++ step.pollIds) (w.step c lib step) := by
  obtain ⟨input, lineKept⟩ := step
  cases input with
  | workerError driver feed =>
    rw [Step.pollIds, List.append_nil]
    have hpresence : (handle c lib w.state (.workerError driver feed)).1.presence =
          w.state.presence ∨
        (handle c lib w.state (.workerError driver feed)).1.presence.members = none := by
      by_cases hfeed : feed = .tripupdates
      · cases driver with
        | pollOnce => exact Or.inl rfl
        | _ => exact Or.inr (congrArg TripUpdatePresence.members (gap_presence _ hfeed _))
      · cases driver with
        | pollOnce => exact Or.inl rfl
        | _ => exact Or.inl (congrArg CollectorState.presence (gap_other _ hfeed _))
    have hquiet := h.quiet hpresence
    cases driver <;> simpa [World.step, handle, PollEvents.records, journalled] using hquiet
  | restart runId streamId feeds =>
    rw [Step.pollIds, List.append_nil]
    have hquiet := h.quiet (s := CollectorState.start c runId streamId feeds) (Or.inr rfl)
    simpa [World.step, handle, PollEvents.records, journalled] using hquiet
  | result driver plan result =>
    obtain ⟨htrace, hstate⟩ := handle_result c lib w.state driver plan result
    by_cases hfeed : result.feedName = .tripupdates
    · have hused : Step.pollIds ⟨.result driver plan result, lineKept⟩ = [result.pollId] :=
        if_pos hfeed
      rw [hused] at hids ⊢
      have hid : result.pollId ∉ used := hids _ (List.mem_singleton_self _)
      have hpresence : (handle c lib w.state (.result driver plan result)).1.presence =
            (process c lib plan w.state result).1.1.presence ∨
          (handle c lib w.state (.result driver plan result)).1.presence.members = none := by
        rcases hstate with hstate | hstate
        · exact Or.inl (congrArg CollectorState.presence hstate)
        · refine Or.inr ?_
          rw [hstate, gap_presence _ hfeed]
          rfl
      have hnew : ∀ earlier ∈ w.log (lib.utcDate result.responseReceivedTs),
          earlier.context.pollId ≠ result.pollId := by
        intro earlier hearlier heq
        obtain ⟨r, hr, rfl⟩ := List.mem_map.mp hearlier
        exact hid (heq ▸ h.recordIds r (List.mem_of_mem_filter hr))
      cases hpayload : result.payload with
      | none =>
        obtain ⟨hgap, hrecords, hevent⟩ :=
          process_gap c lib plan w.state result hfeed hpayload lineKept
        rw [hgap] at hpresence
        have hcall : callOf lib w.state (.result driver plan result) = none := by
          rw [callOf, hpayload]
          rfl
        have hleft : Left (lib.utcDate result.responseReceivedTs) result.pollId w.log
            ⟨w.state.presence.invalidate "http_observation_gap", none, []⟩ :=
          .nothing rfl (fun details hd => by cases hd)
            (continued_of_members_none h.continued.checks rfl)
        have hdone := h.result ((journalled lineKept
          (handle c lib w.state (.result driver plan result)).2).map fun event =>
            ⟨event.1, event.2, callOf lib w.state (.result driver plan result)⟩)
          hleft hid hpresence (by
          rw [htrace, hcall]
          refine hevent.imp (fun h => by rw [h]; rfl) ?_
          rintro ⟨event, ⟨hpollId, heventFeed, hfailure⟩, hjournalled⟩
          rw [hjournalled]
          exact ⟨_, rfl, rfl, hpollId, readable_of_failure heventFeed hfailure, rfl⟩)
        unfold World.step
        dsimp only
        rw [htrace] at hdone ⊢
        rw [hrecords]
        exact hdone
      | some payload =>
        obtain ⟨hpres, hrecords, hevent⟩ :=
          process_call c lib plan w.state result payload hfeed hpayload lineKept
        rw [hpres] at hpresence
        have hcall : callOf lib w.state (.result driver plan result) =
            (presenceCall lib plan w.state.presence result
              (parsePayload lib result payload)).outcome := by
          rw [callOf, hpayload]
          rfl
        have hleft := h.continued.call lib plan result (parsePayload lib result payload)
          (hrows hfeed payload hpayload) hnew
        have hdone := h.result ((journalled lineKept
          (handle c lib w.state (.result driver plan result)).2).map fun event =>
            ⟨event.1, event.2, callOf lib w.state (.result driver plan result)⟩)
          hleft hid hpresence (by
          rw [htrace, hcall]
          refine hevent.imp (fun h => by rw [h]; rfl) ?_
          rintro ⟨event, hreports, hjournalled⟩
          rw [hjournalled]
          have hpollId := hreports.pollId
          rw [← isSome_presenceCall lib plan w.state.presence] at hreports
          exact ⟨_, rfl, rfl, hpollId, readable_of_reports hreports, rfl⟩)
        unfold World.step
        dsimp only
        rw [htrace] at hdone ⊢
        rw [hrecords]
        exact hdone
    · have hnone : Step.pollIds ⟨.result driver plan result, lineKept⟩ = [] := if_neg hfeed
      rw [hnone, List.append_nil]
      obtain ⟨hrecords, hjournalled⟩ := process_other_call c lib plan w.state result hfeed lineKept
      have hpresence : (handle c lib w.state (.result driver plan result)).1.presence =
          w.state.presence := by
        rcases hstate with hstate | hstate
        · rw [hstate, process_other c lib plan w.state hfeed]
        · rw [hstate, gap_other _ hfeed, process_other c lib plan w.state hfeed]
      unfold World.step
      dsimp only
      rw [htrace, hrecords, hjournalled, List.append_nil, List.map_nil, List.append_nil]
      exact h.quiet (Or.inl hpresence)

end step

/-! ### Whole runs -/

theorem accepted_start (c : CollectorConfig) (runId streamId : String)
    (feeds : Feed → FeedHealth) : Accepted [] (World.start c runId streamId feeds) where
  continued := continued_of_members_none (fun _ => ⟨{}, rfl⟩) rfl
  versions := fun _ h => absurd h List.not_mem_nil
  recordIds := fun _ h => absurd h List.not_mem_nil
  recordsNodup := List.nodup_nil
  pollIds := fun _ h => absurd h List.not_mem_nil
  pollsNodup := List.nodup_nil
  readable := fun _ h => absurd h List.not_mem_nil
  confirmed := fun _ h => absurd h List.not_mem_nil

theorem Accepted.run {used : List String} {w : World} (h : Accepted used w) (c : CollectorConfig)
    {lib : Libraries} {steps : List Step} (hrows : ∀ step ∈ steps, step.Parsed lib)
    (hids : (used ++ steps.flatMap Step.pollIds).Nodup) :
    Accepted (used ++ steps.flatMap Step.pollIds) (w.run c lib steps) := by
  induction steps generalizing used w with
  | nil =>
    rw [List.flatMap_nil, List.append_nil]
    exact h
  | cons step steps ih =>
    obtain ⟨hstep, hsteps⟩ := List.forall_mem_cons.mp hrows
    rw [List.flatMap_cons] at hids ⊢
    have hnew : ∀ id ∈ step.pollIds, id ∉ used := fun id hid hmem =>
      (List.nodup_append.mp hids).2.2 id hmem id (List.mem_append_left _ hid) rfl
    rw [← List.append_assoc] at hids ⊢
    exact ih (h.step c hstep hnew) hsteps hids

/-! ### The check -/

section report

variable {used : List String} {w : World}

theorem returned_iff {poll : Poll} :
    poll.returned = true ↔ ∃ details, poll.call = some (.ok details) := by
  unfold Poll.returned
  rcases poll.call with _ | e | details
  · exact iff_of_false (by simp [presenceOutcome]) (by simp)
  · exact iff_of_false (by simp [presenceOutcome]) (by simp)
  · exact iff_of_true rfl ⟨details, rfl⟩

/-- A call returned or raised. -/
theorem isSome_call (polls : List Poll) :
    (polls.filter fun poll => poll.call.isSome).length =
      (polls.filter Poll.returned).length + (polls.filter Poll.raised).length := by
  induction polls with
  | nil => rfl
  | cons poll polls ih =>
    rcases hcall : poll.call with _ | e | details
    all_goals
      simp only [List.filter_cons, Poll.returned, Poll.raised, hcall, presenceOutcome,
        Option.isSome, Bool.false_eq_true, if_true, if_false, List.length_cons] at ih ⊢
      omega

/-- A key of an entry of a list without repeated keys. -/
theorem lookup_of_nodup {κ β : Type} [DecidableEq κ] {d : List (κ × β)} {key : κ} {value : β}
    (h : (d.map Prod.fst).Nodup) (hmem : (key, value) ∈ d) : d.lookup key = some value := by
  obtain ⟨l, m, rfl⟩ := List.append_of_mem hmem
  rw [List.map_append, List.map_cons] at h
  refine List.lookup_eq_some_iff.mpr ⟨l, m, rfl, fun entry hentry => ?_⟩
  have hne : key ≠ entry.1 := fun heq => (List.nodup_append.mp h).2.2 entry.1
    (List.mem_map_of_mem hentry) key List.mem_cons_self heq.symm
  simpa using hne

/-- The promises of the journal of a date. -/
def promisesOf (w : World) (date : String) : Promised :=
  ((w.pollsOf date).filter Poll.returned).map fun poll =>
    (.str poll.event.pollId, toDoc poll.event)

theorem mem_pollsOf {date : String} {poll : Poll} :
    poll ∈ w.pollsOf date ↔ poll ∈ w.polls ∧ poll.date = date := by
  simp [World.pollsOf]

theorem dictOf_promisesOf (h : Accepted used w) (date : String) :
    dictOf (promisesOf w date) = promisesOf w date := by
  refine dictOf_eq ?_
  have hnodup : (((w.pollsOf date).filter Poll.returned).map fun poll =>
      poll.event.pollId).Nodup :=
    h.pollsNodup.sublist ((List.filter_sublist.trans List.filter_sublist).map _)
  have hkeys : (promisesOf w date).map Prod.fst =
      (((w.pollsOf date).filter Poll.returned).map fun poll => poll.event.pollId).map Doc.str := by
    rw [promisesOf, List.map_map, List.map_map]
    rfl
  rw [hkeys]
  exact hnodup.map fun a b hab => Doc.str.inj hab

/-- A promise of the journal is kept by a record of the log. -/
theorem Accepted.kept (h : Accepted used w) {date : String} {item : Doc × Doc}
    (hitem : item ∈ promisesOf w date) :
    ∃ poll details record, item = (.str poll.event.pollId, toDoc poll.event) ∧
      poll.call = some (.ok details) ∧ Readable poll ∧ record ∈ w.log date ∧
      record.context.pollId = poll.event.pollId ∧ details = record.details date := by
  obtain ⟨poll, hpoll, rfl⟩ := List.mem_map.mp hitem
  obtain ⟨hpoll, hreturned⟩ := List.mem_filter.mp hpoll
  obtain ⟨hmem, rfl⟩ := mem_pollsOf.mp hpoll
  obtain ⟨details, hcall⟩ := returned_iff.mp hreturned
  obtain ⟨record, hrecord, hpollId, hdetails⟩ := h.confirmed poll hmem details hcall
  refine ⟨poll, details, record, rfl, hcall, h.readable poll hmem, ?_, hpollId, hdetails⟩
  exact List.mem_map.mpr ⟨_, List.mem_filter.mpr ⟨hrecord, decide_eq_true rfl⟩, rfl⟩

/-- The log of a date passes the check, with the promises of its journal. -/
theorem Accepted.checks (h : Accepted used w) (date : String) :
    ∃ s, checkRecords (promisesOf w date) {} (w.log date) = (s, none) := by
  obtain ⟨s, hs⟩ := h.continued.checks date
  refine ⟨s, checkRecords_promised hs fun record hrecord => ?_⟩
  obtain ⟨r, hr, rfl⟩ := List.mem_map.mp hrecord
  have hversion := h.versions r (List.mem_of_mem_filter hr)
  unfold timestampsMismatch promisedEvent
  cases hlookup : (promisesOf w date).lookup (.str r.2.context.pollId) with
  | none => rfl
  | some event =>
    obtain ⟨poll, details, record, hitem, hcall, hreadable, -, -, hdetails⟩ :=
      h.kept (mem_of_lookup hlookup)
    obtain rfl : event = toDoc poll.event := congrArg Prod.snd hitem
    obtain ⟨-, -, hfield⟩ := hreadable.evidence details hcall
    rw [Option.getD_some, hfield, hversion, hdetails]
    simp [Record.details, Doc.isNone]

/-- **The evidence of a date is accepted.** -/
theorem Accepted.report (h : Accepted used w) (date : String) (recoveredTail : Bool)
    {file : Option PresenceFile} (hfile : Whole (w.log date) file) :
    ∃ report, presenceStats file recoveredTail (w.journal date) = .ok report ∧
      report.errors = [] ∧
      report.journalConfirmedObservations = ((w.pollsOf date).filter Poll.returned).length ∧
      report.unavailableObservations = ((w.pollsOf date).filter Poll.raised).length := by
  have hreadable : ∀ poll ∈ w.pollsOf date, Readable poll :=
    fun poll hpoll => h.readable poll (mem_pollsOf.mp hpoll).1
  have hpromised : promisedItems (w.journal date) = .ok (promisesOf w date) :=
    promisedItems_journal hreadable
  have hexpected := countEvents_journal (p := expects) (q := fun poll => poll.call.isSome)
    fun poll hpoll => (hreadable poll hpoll).expects
  have hlegacy := countEvents_journal (p := isLegacy) (q := fun _ => false)
    fun poll hpoll => (hreadable poll hpoll).legacy
  obtain ⟨s, hs⟩ := h.checks date
  have hcheck : checkFile (promisesOf w date) file = (s, none) := by
    cases hfile with
    | file => simp only [checkFile, hs]
    | missing hempty =>
      rw [hempty] at hs
      exact hs
  have hseen := seen_checkRecords hs
  have hkept : ((promisesOf w date).all fun item => keepsPromise s.seen item.1 item.2) = true := by
    refine List.all_eq_true.mpr fun item hitem => ?_
    obtain ⟨poll, details, record, rfl, hcall, hread, hrecord, hpollId, rfl⟩ := h.kept hitem
    obtain ⟨hstream, hsequence, -⟩ := hread.evidence _ hcall
    have hnodup : (s.seen.map Prod.fst).Nodup := by
      rw [hseen, List.nil_append, List.map_map]
      have hrecords : ((w.log date).map fun record => record.context.pollId).Nodup := by
        rw [World.log, List.map_map]
        exact h.recordsNodup.sublist (List.filter_sublist.map _)
      exact hrecords
    have hlookup : s.seen.lookup poll.event.pollId =
        some (some record.streamId, record.sequence) := by
      refine lookup_of_nodup hnodup ?_
      rw [hseen, List.nil_append, ← hpollId]
      exact List.mem_map.mpr ⟨record, hrecord, rfl⟩
    simp [keepsPromise, Doc.asStr, hlookup, hstream, hsequence, Record.details]
  refine ⟨reportOf (promisesOf w date)
    ((w.pollsOf date).filter fun poll => poll.call.isSome).length
    ((w.pollsOf date).filter fun _ => false).length recoveredTail (s, none), ?_, ?_, ?_, ?_⟩
  · simp only [presenceStats, bind_eq_ok, pure_eq_ok]
    refine ⟨_, hpromised, _, hexpected, _, hlegacy, ?_⟩
    rw [dictOf_promisesOf h, hcheck]
  · simp [reportOf, hkept, flagged]
  · exact List.length_map _
  · show (_ : ℤ) - ((promisesOf w date).length : ℤ) = _
    rw [promisesOf, List.length_map, isSome_call]
    omega

end report

/-- **The manifest accepts the collector's presence evidence**: in every run whose TripUpdates polls
have different ids and parsed rows, the check of a date whose log has no torn tail finds no error,
confirms the journalled polls whose `observe` returned, and counts as unavailable those whose
`observe` raised. -/
theorem presence_accepted (c : CollectorConfig) (lib : Libraries) (runId streamId : String)
    (feeds : Feed → FeedHealth) (steps : List Step)
    (hids : (steps.flatMap Step.pollIds).Nodup) (hrows : ∀ step ∈ steps, step.Parsed lib) :
    let w := (World.start c runId streamId feeds).run c lib steps
    ∀ date recoveredTail file, Whole (w.log date) file →
      ∃ report, presenceStats file recoveredTail (w.journal date) = .ok report ∧
        report.errors = [] ∧
        report.journalConfirmedObservations = ((w.pollsOf date).filter Poll.returned).length ∧
        report.unavailableObservations = ((w.pollsOf date).filter Poll.raised).length := by
  intro w date recoveredTail file hfile
  have haccepted := (accepted_start c runId streamId feeds).run c hrows (by
    rwa [List.nil_append])
  exact haccepted.report date recoveredTail hfile

/-- A TripUpdates response of one trip, whose presence append goes as planned. -/
def sampleStep (freshId pollId : String) (presence : Append) : Step where
  input := .result .loop { freshId, presence } (sampleResult pollId 0 (some (tripMessage goodId)))

/-- An observation, one whose record is durable but whose append raised, and another one. -/
def sampleSteps : List Step :=
  [sampleStep "a" "p1" .written, sampleStep "b" "p2" (.durable ⟨.osError, ""⟩),
    sampleStep "c" "p3" .written]

theorem sampleStep_parsed (freshId pollId : String) (presence : Append) :
    (sampleStep freshId pollId presence).Parsed sampleLibraries := by
  intro _ payload hpayload row hrow
  obtain rfl := Option.some.inj hpayload
  have hrows : (parsePayload sampleLibraries
      (sampleResult pollId 0 (some (tripMessage goodId))) (tripMessage goodId)).rows =
      [sampleEntityRow (sampleEntity goodId)] := rfl
  rw [hrows, List.mem_singleton] at hrow
  subst hrow
  have hrow : sampleEntityRow (sampleEntity goodId) =
      [("entity_id", .str "1"), ("trip_id", .str "T1")] := rfl
  refine ⟨fun f hf => ?_, Or.inl ?_⟩
  · simp only [tripUpdateKeyFields, List.mem_cons, List.not_mem_nil, or_false] at hf
    rcases hf with rfl | rfl | rfl | rfl | rfl | rfl | rfl <;>
      simp [hrow, Row.get, List.lookup]
  · simp [hrow, Row.get, List.lookup]

/-- What they leave. -/
def sampleWorld : World :=
  (World.start defaultConfig "run" "s" fun _ => {}).run defaultConfig sampleLibraries sampleSteps

theorem presence_accepted_durable :
    ∃ report, presenceStats (some { records := sampleWorld.log "2026-01-01" }) false
        (sampleWorld.journal "2026-01-01") = .ok report ∧
      report.errors = [] ∧
      report.journalConfirmedObservations =
        ((sampleWorld.pollsOf "2026-01-01").filter Poll.returned).length ∧
      report.unavailableObservations =
        ((sampleWorld.pollsOf "2026-01-01").filter Poll.raised).length := by
  refine presence_accepted defaultConfig sampleLibraries "run" "s" (fun _ => {}) sampleSteps
    (by decide) ?_ "2026-01-01" false _ .file
  simp only [sampleSteps, List.forall_mem_cons]
  exact ⟨sampleStep_parsed _ _ _, sampleStep_parsed _ _ _, sampleStep_parsed _ _ _, by simp⟩

end BkkCollector.Collector.PresenceAccepted
