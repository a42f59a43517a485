import BkkCollector.Collector.ProcessResult
import BkkCollector.Realtime.PresenceReplay

/-! # Processing against given outcomes

`process_result` with storage operations whose outcomes are given beforehand, and the trace of what
it did to the storage. Each step of the processing has one lemma: what it appends to the trace, and
what it leaves alone. -/

namespace BkkCollector.Collector.Outcomes

open BkkCollector.Python.Objects BkkCollector.Config BkkCollector.Monitoring
open BkkCollector.Realtime.Dedup BkkCollector.Realtime.PresenceLog
open BkkCollector.Realtime.PresenceReplay
open BkkCollector.Collector.RawArchive BkkCollector.Collector.ProcessResult

/-! ### Outcomes and traces -/

/-- The outcomes of the storage operations while one response is processed. -/
structure Plan where
  monotonic : Attempt → ℚ := fun _ => 0
  iterate : Attempt → List RawPath → List RawPath := fun _ paths => paths
  repair : Attempt → RawPath → Except PyError (Option String) := fun _ _ => .ok none
  append : Attempt → Except PyError Unit := fun _ => .ok ()
  runMetadata : Except PyError Unit := .ok ()
  freshId : String
  presence : Append := .written
  stage : Except PyError (Option String) := .ok none
  health : Except PyError Unit := .ok ()
  journal : Except PyError Unit := .ok ()

/-- What was done to the storage. -/
inductive StorageEvent where
  | rawRepair (path : RawPath) (outcome : Except PyError (Option String))
  | rawAppend (path : RawPath) (timestamp : ℚ) (payload : Bytes) (outcome : Except PyError Unit)
  | runMetadata (outcome : Except PyError Unit)
  | presence (date : String) (record : Record) (append : Append)
  | stage (feed : Feed) (date pollId : String) (rows : List Row)
      (outcome : Except PyError (Option String))
  | health (monitor : HealthMonitor) (outcome : Except PyError Unit)
  | journal (feed : Feed) (date : String) (event : JournalEvent) (outcome : Except PyError Unit)

/-- The storage events so far. -/
abbrev Trace := List StorageEvent

/-- A computation that leaves storage events behind. -/
abbrev Traced := StateM Trace

/-- An operation with a given outcome. -/
def perform {α : Type} (event : α → StorageEvent) (outcome : α) : Traced α :=
  fun trace => (outcome, trace ++ [event outcome])

/-- The raw operations of a plan. -/
def Plan.raw (plan : Plan) : RawOps Traced where
  monotonic attempt := pure (plan.monotonic attempt)
  iterate := plan.iterate
  repair attempt path := perform (.rawRepair path) (plan.repair attempt path)
  append attempt path timestamp payload :=
    perform (.rawAppend path timestamp payload) (plan.append attempt)

/-- The storage operations of a plan. -/
def Plan.ops (plan : Plan) : StorageOps Traced where
  raw := plan.raw
  writeRunMetadata := perform .runMetadata plan.runMetadata
  freshId := pure plan.freshId
  appendPresence date record trace :=
    (plan.presence.outcome, trace ++ [.presence date record plan.presence])
  stage feed date pollId rows := perform (.stage feed date pollId rows) plan.stage
  saveHealth monitor := perform (.health monitor) plan.health
  appendJournal feed date event := perform (.journal feed date event) plan.journal

/-- Processing a response with the outcomes of a plan: the state and the exception, and the
trace. -/
def process (c : CollectorConfig) (lib : Libraries) (plan : Plan) (s : CollectorState)
    (result : FetchResult) : (CollectorState × Except PyError Unit) × Trace :=
  processResult c lib plan.ops s result []

/-! ### Rules -/

variable {α β : Type}

/-- `P` holds of the result and the trace of a computation. -/
def After (x : Traced α) (trace : Trace) (P : α → Trace → Prop) : Prop := P (x trace).1 (x trace).2

theorem after_pure {a : α} {trace : Trace} {P : α → Trace → Prop} :
    After (pure a) trace P ↔ P a trace := Iff.rfl

theorem after_perform {event : α → StorageEvent} {outcome : α} {trace : Trace}
    {P : α → Trace → Prop} :
    After (perform event outcome) trace P ↔ P outcome (trace ++ [event outcome]) := Iff.rfl

theorem After.bind {x : Traced α} {f : α → Traced β} {trace : Trace} {Q : α → Trace → Prop}
    {P : β → Trace → Prop} (hx : After x trace Q)
    (hf : ∀ a trace, Q a trace → After (f a) trace P) : After (x >>= f) trace P := hf _ _ hx

theorem After.mono {x : Traced α} {trace : Trace} {P Q : α → Trace → Prop} (h : After x trace Q)
    (hQP : ∀ a trace, Q a trace → P a trace) : After x trace P := hQP _ _ h

/-- The computation only adds events with `p` to the trace. -/
def Adds (p : StorageEvent → Prop) (old new : Trace) : Prop := ∃ evs, new = old ++ evs ∧
  ∀ ev ∈ evs, p ev

variable {p q : StorageEvent → Prop} {old new next : Trace}

theorem Adds.refl : Adds p old old := ⟨[], by simp, by simp⟩

theorem Adds.one {ev : StorageEvent} (h : p ev) : Adds p old (old ++ [ev]) :=
  ⟨[ev], rfl, by simpa using h⟩

theorem Adds.trans (h : Adds p old new) (h' : Adds p new next) : Adds p old next := by
  obtain ⟨evs, rfl, hevs⟩ := h
  obtain ⟨evs', rfl, hevs'⟩ := h'
  refine ⟨evs ++ evs', by rw [List.append_assoc], fun ev hev => ?_⟩
  rcases List.mem_append.mp hev with hev | hev
  · exact hevs ev hev
  · exact hevs' ev hev

theorem Adds.mono (h : Adds p old new) (hpq : ∀ ev, p ev → q ev) : Adds q old new := by
  obtain ⟨evs, rfl, hevs⟩ := h
  exact ⟨evs, rfl, fun ev hev => hpq ev (hevs ev hev)⟩

theorem Adds.subset (h : Adds p old new) : old ⊆ new := by
  obtain ⟨evs, rfl, -⟩ := h
  exact List.subset_append_left _ _

/-- An event that was added, or was there before. -/
theorem Adds.mem (h : Adds p old new) {ev : StorageEvent} (hev : ev ∈ new) : ev ∈ old ∨ p ev := by
  obtain ⟨evs, rfl, hevs⟩ := h
  exact (List.mem_append.mp hev).imp_right (hevs ev)

theorem mem_concat {ev : StorageEvent} : ev ∈ old ++ [ev] :=
  List.mem_append_right _ (List.mem_singleton_self _)

/-! ### Raw archival -/

/-- Is an event one of raw archival. -/
def StorageEvent.IsRaw : StorageEvent → Prop
  | .rawRepair .. | .rawAppend .. => True
  | _ => False

/-- The repairs: a failure they report is one of the log's own repair. -/
theorem repairPending_after (plan : Plan) (attempt : Attempt) (path : RawPath)
    (pending : List RawPath) (memory : RawMemory) (trace : Trace) :
    After (repairPending plan.raw attempt path pending memory) trace fun r new =>
      Adds StorageEvent.IsRaw trace new ∧
        ∀ e, r.2 = .error e → StorageEvent.rawRepair path (.error e) ∈ new := by
  induction pending generalizing memory trace with
  | nil => exact ⟨Adds.refl, fun e he => by cases he⟩
  | cons pendingPath pending ih =>
    rw [repairPending]
    split
    · exact ih memory trace
    · refine After.bind (Q := fun r new => r = plan.repair attempt pendingPath ∧
        new = trace ++ [.rawRepair pendingPath r]) ⟨rfl, rfl⟩ ?_
      rintro r new ⟨-, rfl⟩
      cases r with
      | error e =>
        dsimp only
        split
        · next heq =>
          refine ⟨Adds.one trivial, fun e' he' => ?_⟩
          cases he'
          rw [heq]
          exact mem_concat
        · exact (ih memory _).mono fun r new h => ⟨(Adds.one trivial).trans h.1, h.2⟩
      | ok sidecar =>
        exact (ih (memory.repaired pendingPath) _).mono fun r new h =>
          ⟨(Adds.one trivial).trans h.1, h.2⟩

/-- What one call of `_archive_raw` for a payload leaves behind when it tries to archive it: the
payload is appended, its append failed, or the repair of its log failed. -/
def Attempted (path : RawPath) (timestamp : ℚ) (payload : Bytes) (trace : Trace) : Prop :=
  StorageEvent.rawAppend path timestamp payload (.ok ()) ∈ trace ∨
  ∃ e, StorageEvent.rawAppend path timestamp payload (.error e) ∈ trace ∨
    StorageEvent.rawRepair path (.error e) ∈ trace

theorem Attempted.mono {path : RawPath} {timestamp : ℚ} {payload : Bytes}
    (h : Attempted path timestamp payload old) (hsub : old ⊆ new) :
    Attempted path timestamp payload new :=
  h.imp (@hsub _) fun ⟨e, he⟩ => ⟨e, he.imp (@hsub _) (@hsub _)⟩

/-- **One archival**: a payload that is not due leaves no trace, one that is due is attempted. -/
theorem archiveRaw_after (c : CollectorConfig) (plan : Plan) (attempt : Attempt)
    (memory : RawMemory) (path : RawPath) (timestamp : ℚ) (payload : Bytes) (force : Bool)
    (trace : Trace) :
    After (archiveRaw c plan.raw attempt memory path timestamp payload force) trace fun r new =>
      Adds StorageEvent.IsRaw trace new ∧
      (if force || isDue c memory path.feed (plan.monotonic attempt) then
        Attempted path timestamp payload new
      else new = trace ∧ r.2.archived = false) := by
  unfold archiveRaw
  refine After.bind (Q := fun now new => now = plan.monotonic attempt ∧ new = trace) ⟨rfl, rfl⟩ ?_
  rintro now new ⟨rfl, rfl⟩
  by_cases hdue : (force || isDue c memory path.feed (plan.monotonic attempt)) = true
  · simp only [hdue, Bool.not_true, Bool.false_eq_true, if_false, if_true]
    refine After.bind (repairPending_after plan attempt path _ memory new) ?_
    rintro ⟨memory', repairs⟩ new' ⟨hadds, hrepair⟩
    cases repairs with
    | error e => exact ⟨hadds, Or.inr ⟨e, Or.inr (hrepair e rfl)⟩⟩
    | ok u =>
      refine After.bind (Q := fun r new => r = plan.append attempt ∧
        new = new' ++ [.rawAppend path timestamp payload r]) ⟨rfl, rfl⟩ ?_
      rintro r new'' ⟨-, rfl⟩
      cases r with
      | error e => exact ⟨hadds.trans (Adds.one trivial), Or.inr ⟨e, Or.inl mem_concat⟩⟩
      | ok u => exact ⟨hadds.trans (Adds.one trivial), Or.inl mem_concat⟩
  · simp only [hdue, Bool.not_false, if_true]
    exact ⟨Adds.refl, rfl, rfl⟩

/-- The raw log of a response. -/
def rawPath (lib : Libraries) (result : FetchResult) : RawPath :=
  ⟨result.feedName, lib.utcDate result.responseReceivedTs⟩

/-- `Attempted`, for a response. -/
def AttemptedFor (lib : Libraries) (result : FetchResult) (payload : Bytes) (trace : Trace) :
    Prop :=
  Attempted (rawPath lib result) result.responseReceivedTs payload trace

section steps

variable (c : CollectorConfig) (lib : Libraries) (plan : Plan) (s : CollectorState)
  (result : FetchResult) (payload : Bytes) (parsed : Parsed) (trace : Trace)

theorem archive_after (attempt : Attempt) (force : Bool) :
    After (archive c lib plan.ops attempt s result payload force) trace fun r new =>
      (∃ raw, r.1 = { s with raw }) ∧ Adds StorageEvent.IsRaw trace new ∧
      (if force || isDue c s.raw result.feedName (plan.monotonic attempt) then
        AttemptedFor lib result payload new
      else new = trace ∧ r.2.archived = false) := by
  refine After.bind (archiveRaw_after c plan attempt s.raw (rawPath lib result) _ payload force
    trace) ?_
  rintro ⟨raw, outcome⟩ new ⟨hadds, h⟩
  exact ⟨⟨raw, rfl⟩, hadds, h⟩

theorem archiveUnless_after (attempt : Attempt) (needed : Bool) (raw : RawOutcome) :
    After (archiveUnless c lib plan.ops attempt s result payload needed raw) trace fun r new =>
      (∃ raw, r.1 = { s with raw }) ∧ Adds StorageEvent.IsRaw trace new ∧
      (if needed && !raw.archived then AttemptedFor lib result payload new
      else new = trace ∧ r.2.archived = raw.archived) := by
  unfold archiveUnless
  split
  · exact (archive_after c lib plan s result payload trace attempt true).mono
      fun r new h => ⟨h.1, h.2.1, by simpa using h.2.2⟩
  · exact ⟨⟨s.raw, rfl⟩, Adds.refl, rfl, rfl⟩

/-! ### Presence -/

/-- Is an event about presence. -/
def StorageEvent.IsPresence : StorageEvent → Prop
  | .presence .. => True
  | _ => False

instance : DecidablePred StorageEvent.IsPresence
  | .presence .. => isTrue trivial
  | .rawRepair .. | .rawAppend .. | .runMetadata .. | .stage .. | .health .. | .journal .. =>
    isFalse id

/-- The presence events of a trace. -/
def presenceEvents (trace : Trace) : Trace := trace.filter (·.IsPresence)

theorem Adds.presenceEvents (h : Adds (fun ev => ¬ ev.IsPresence) old new) :
    presenceEvents new = presenceEvents old := by
  obtain ⟨evs, rfl, hevs⟩ := h
  have hnone : evs.filter (·.IsPresence) = [] := List.filter_eq_nil_iff.mpr (by simpa using hevs)
  unfold Outcomes.presenceEvents
  rw [List.filter_append, hnone, List.append_nil]

/-- The presence block: the instance afterwards, `presence_ok`, and the events. -/
inductive PresenceStep (p : TripUpdatePresence) : TripUpdatePresence → Bool → Trace → Prop
  | other (hfeed : result.feedName ≠ .tripupdates) : PresenceStep p p true []
  | unparsed (hfeed : result.feedName = .tripupdates)
      (hparsed : parsed.ok = false ∨ parsed.feed = none) :
      PresenceStep p (p.invalidate "parse_observation_gap") false []
  | refused {message : FeedMessage} {p' : TripUpdatePresence} {e : PyError}
      (hfeed : result.feedName = .tripupdates) (hparsed : parsed.ok = true)
      (hmessage : parsed.feed = some message)
      (hprepare : p.prepare lib.json parsed.rows (lib.utcDate result.responseReceivedTs)
        (parseContext result message) plan.freshId = (p', .error e)) : PresenceStep p p' false []
  | appended {message : FeedMessage} {p' : TripUpdatePresence} {record : Record}
      {current : Observation} (hfeed : result.feedName = .tripupdates)
      (hparsed : parsed.ok = true) (hmessage : parsed.feed = some message)
      (hprepare : p.prepare lib.json parsed.rows (lib.utcDate result.responseReceivedTs)
        (parseContext result message) plan.freshId = (p', .ok (record, current))) :
      PresenceStep p
        (if plan.presence.outcome.isOk then p'.advance record current
          else p'.invalidate "presence_write_gap")
        plan.presence.outcome.isOk
        [.presence (lib.utcDate result.responseReceivedTs) record plan.presence]

variable {lib plan result parsed} in
theorem PresenceStep.isPresence {p p' : TripUpdatePresence} {ok : Bool} {evs : Trace}
    (h : PresenceStep lib plan result parsed p p' ok evs) : ∀ ev ∈ evs, ev.IsPresence := by
  cases h with
  | appended => exact List.forall_mem_singleton.mpr trivial
  | _ => exact fun ev hev => absurd hev List.not_mem_nil

/-- `observe` of a record, with the outcome of a plan. -/
theorem observe_after {p p' : TripUpdatePresence} {rows : List Row} {date freshId : String}
    {context : Context} {record : Record} {current : Observation}
    (hprepare : p.prepare lib.json rows date context freshId = (p', .ok (record, current))) :
    After (p.observe lib.json rows date context freshId plan.ops.appendPresence) trace fun r new =>
      r.1 = (if plan.presence.outcome.isOk then p'.advance record current
        else p'.invalidate "presence_write_gap") ∧
      r.2.isOk = plan.presence.outcome.isOk ∧
      new = trace ++ [.presence date record plan.presence] := by
  simp only [TripUpdatePresence.observe, hprepare]
  refine After.bind (Q := fun a new => a = plan.presence.outcome ∧
    new = trace ++ [.presence date record plan.presence]) ⟨rfl, rfl⟩ ?_
  rintro a new ⟨ha, rfl⟩
  rw [← ha]
  cases a with
  | error e => exact ⟨rfl, rfl, rfl⟩
  | ok u => exact ⟨rfl, rfl, rfl⟩

theorem observePresence_after :
    After (observePresence lib plan.ops s result parsed) trace fun r new =>
      ∃ p evs, r.1 = { s with presence := p } ∧ new = trace ++ evs ∧
        PresenceStep lib plan result parsed s.presence p r.2.ok evs := by
  unfold observePresence
  split
  · next hfeed =>
    split
    · next message herror hmessage =>
      have hparsed : parsed.ok = true := by rw [Parsed.ok, herror]; rfl
      refine After.bind (Q := fun a new => a = plan.freshId ∧ new = trace) ⟨rfl, rfl⟩ ?_
      rintro freshId new ⟨rfl, rfl⟩
      rcases hprepare : s.presence.prepare lib.json parsed.rows
        (lib.utcDate result.responseReceivedTs) (parseContext result message) plan.freshId with
        ⟨p, e | ⟨record, current⟩⟩
      · simp only [TripUpdatePresence.observe, hprepare]
        exact ⟨p, [], rfl, (List.append_nil _).symm, .refused hfeed hparsed hmessage hprepare⟩
      · have hstep := PresenceStep.appended hfeed hparsed hmessage hprepare
        refine (observe_after lib plan new hprepare).bind ?_
        rintro ⟨p', outcome⟩ new' ⟨rfl, hok, rfl⟩
        rw [← hok] at hstep ⊢
        cases outcome with
        | error e => exact ⟨_, _, rfl, rfl, hstep⟩
        | ok details => exact ⟨_, _, rfl, rfl, hstep⟩
    · next hnot =>
      refine ⟨_, [], rfl, (List.append_nil _).symm, .unparsed hfeed ?_⟩
      cases herror : parsed.error with
      | some e => exact Or.inl (by rw [Parsed.ok, herror]; rfl)
      | none =>
        cases hmessage : parsed.feed with
        | none => exact Or.inr rfl
        | some message => exact absurd hmessage (hnot message herror)
  · next hfeed => exact ⟨s.presence, [], rfl, (List.append_nil _).symm, .other hfeed⟩

/-! ### Change tracking -/

/-- Is an event a staging. -/
def StorageEvent.IsStage : StorageEvent → Prop
  | .stage .. => True
  | _ => False

/-- Do change tracking and staging go well. -/
def tracksOk : Bool :=
  ((s.trackers result.feedName).all fun t =>
    (t.filter parsed.rows (lib.utcDate result.responseReceivedTs) result.responseReceivedTs
      false).2.isOk) &&
  plan.stage.isOk

/-- Staging and committing rows with the outcome of a plan. -/
theorem stageRows_after (tracker : Option ChangeTracker) (emittedRows : List Row) (date : String)
    (nowTs : ℚ) (feed : Feed) (pollId : String) :
    After (do
      match ← plan.ops.stage feed date pollId emittedRows with
      | .error e => pure { tracker, emittedRows, spool := .error e : Tracked }
      | .ok path =>
        pure { tracker := tracker.map (·.commit emittedRows date nowTs), emittedRows
               spool := .ok path }) trace
      fun tracked new => Adds StorageEvent.IsStage trace new ∧
        trackedOk tracked = plan.stage.isOk := by
  refine After.bind (Q := fun r new => r = plan.stage ∧
    new = trace ++ [.stage feed date pollId emittedRows plan.stage]) ⟨rfl, rfl⟩ ?_
  rintro r new ⟨hr, rfl⟩
  rw [← hr]
  cases r with
  | error e => exact ⟨Adds.one trivial, rfl⟩
  | ok path => exact ⟨Adds.one trivial, rfl⟩

/-- Filtering, staging and committing with the outcome of a plan. -/
theorem trackAndStage_after (tracker : Option ChangeTracker) (rows : List Row) (date : String)
    (nowTs : ℚ) (feed : Feed) (pollId : String) :
    After (trackAndStage tracker rows date nowTs (plan.ops.stage feed date pollId)) trace
      fun tracked new => Adds StorageEvent.IsStage trace new ∧
        trackedOk tracked =
          ((tracker.all fun t => (t.filter rows date nowTs false).2.isOk) && plan.stage.isOk) := by
  cases tracker with
  | none => exact stageRows_after plan trace none rows date nowTs feed pollId
  | some t =>
    unfold trackAndStage
    cases hfilter : (t.filter rows date nowTs false).2 with
    | error e =>
      simp only [hfilter]
      refine ⟨Adds.refl, ?_⟩
      rw [Option.all_some, hfilter]
      rfl
    | ok emittedRows =>
      simp only [hfilter]
      refine (stageRows_after plan trace (some (t.filter rows date nowTs false).1) emittedRows date
        nowTs feed pollId).mono fun _ _ h => ⟨h.1, h.2.trans ?_⟩
      rw [Option.all_some, hfilter]
      rfl

theorem trackRows_after :
    After (trackRows lib plan.ops s result parsed) trace fun r new =>
      (∃ trackers, r.1 = { s with trackers }) ∧ Adds StorageEvent.IsStage trace new ∧
      trackedOk r.2 = (!parsed.ok || tracksOk lib plan s result parsed) := by
  unfold trackRows
  split
  · next hparsed =>
    rw [hparsed]
    refine (trackAndStage_after plan trace _ _ _ _ _ _).bind ?_
    rintro tracked new ⟨hadds, hok⟩
    exact ⟨⟨_, rfl⟩, hadds, hok⟩
  · next hparsed =>
    rw [Bool.not_eq_true] at hparsed
    rw [hparsed]
    exact ⟨⟨s.trackers, rfl⟩, Adds.refl, rfl⟩

/-! ### The end of a response -/

/-- The journal event of a response is appended. -/
def Journalled (trace : Trace) : Prop :=
  ∃ event, event.pollId = result.pollId ∧ StorageEvent.journal result.feedName
    (lib.utcDate result.responseReceivedTs) event (.ok ()) ∈ trace

theorem appendEvent_after (event : JournalEvent) :
    After (appendEvent lib plan.ops s result event) trace fun r new =>
      (∃ monitor, r.1 = { s with monitor }) ∧ r.2 = plan.journal.isOk ∧
      new = trace ++ [.journal result.feedName (lib.utcDate result.responseReceivedTs) event
        plan.journal] := by
  refine After.bind (Q := fun r new => r = plan.journal ∧
    new = trace ++ [.journal result.feedName (lib.utcDate result.responseReceivedTs) event r])
    ⟨rfl, rfl⟩ ?_
  rintro r new ⟨hr, rfl⟩
  rw [← hr]
  cases r with
  | error e => exact ⟨⟨_, rfl⟩, rfl, rfl⟩
  | ok u => exact ⟨⟨_, rfl⟩, rfl, rfl⟩

theorem journalFallback_after (appended archived : Bool) :
    After (journalFallback c lib plan.ops s result payload appended archived) trace fun r new =>
      (∃ raw, r = { s with raw }) ∧ Adds StorageEvent.IsRaw trace new ∧
      ((!appended && !archived) = true → AttemptedFor lib result payload new) := by
  unfold journalFallback
  split
  · refine (archive_after c lib plan s result payload trace .journalFallback true).bind ?_
    rintro ⟨s', raw⟩ new ⟨hs, hadds, h⟩
    have hattempted : AttemptedFor lib result payload new := by simpa using h
    exact ⟨hs, hadds, fun _ => hattempted⟩
  · next hnot => exact ⟨⟨s.raw, rfl⟩, Adds.refl, fun h => absurd h hnot⟩

/-- **The end of a response**: without the health write nothing more happens, with it the poll has
its journal event or a raw archival. -/
theorem finish_after (changed : Bool) (presence : PresenceOutcome) (tracked : Tracked)
    (raw : RawOutcome) :
    After (finish c lib plan.ops s result payload parsed changed presence tracked raw) trace
      fun r new => r.1.presence = s.presence ∧
        Adds (fun ev => ¬ ev.IsPresence) trace new ∧
        (if plan.health.isOk then
          Journalled lib result new ∨ raw.archived = true ∨ AttemptedFor lib result payload new
        else ∃ ev, new = trace ++ [ev] ∧ ∃ monitor outcome, ev = .health monitor outcome) := by
  unfold finish
  refine After.bind (Q := fun r new => r = plan.health ∧
    ∃ monitor, new = trace ++ [.health monitor r]) ⟨rfl, _, rfl⟩ ?_
  rintro r new ⟨hr, monitor, rfl⟩
  rw [← hr]
  cases r with
  | error e => exact ⟨rfl, Adds.one (fun h => h), _, rfl, monitor, _, rfl⟩
  | ok u =>
    refine (appendEvent_after lib plan _ result _ _).bind ?_
    rintro ⟨s', appended⟩ new ⟨⟨monitor', hs'⟩, happended, rfl⟩
    refine (journalFallback_after c lib plan s' result payload _ appended raw.archived).bind ?_
    rintro s'' new' ⟨⟨raw', hs''⟩, hadds, hfall⟩
    subst hs' hs''
    refine ⟨rfl, ?_, ?_⟩
    · refine ((Adds.one (fun h => h)).trans (Adds.one (fun h => h))).trans (hadds.mono ?_)
      intro ev hev hp
      cases ev <;> first | exact hev | exact hp
    · change Journalled lib result new' ∨ raw.archived = true ∨ AttemptedFor lib result payload new'
      cases happended' : plan.journal with
      | ok u =>
        refine Or.inl ⟨_, ?_, hadds.subset (by rw [happended']; exact mem_concat)⟩
        rfl
      | error e =>
        rw [happended'] at happended
        have hnot : appended = false := happended
        by_cases harchived : raw.archived = true
        · exact Or.inr (Or.inl harchived)
        · exact Or.inr (Or.inr (hfall (by simp [hnot, harchived])))

/-! ### Whole responses -/

theorem writeRunMetadata_after :
    After (writeRunMetadata plan.ops s) trace fun r new =>
      (∃ written, r = { s with runMetadataWritten := written }) ∧
      Adds (· = .runMetadata plan.runMetadata) trace new := by
  unfold writeRunMetadata
  split
  · exact ⟨⟨s.runMetadataWritten, rfl⟩, Adds.refl⟩
  · refine After.bind (Q := fun r new => r = plan.runMetadata ∧
      new = trace ++ [.runMetadata plan.runMetadata]) ⟨rfl, rfl⟩ ?_
    rintro r new ⟨-, rfl⟩
    cases r with
    | error e => exact ⟨⟨s.runMetadataWritten, rfl⟩, Adds.one rfl⟩
    | ok u => exact ⟨⟨true, rfl⟩, Adds.one rfl⟩

/-- A response without a payload: the presence of TripUpdates has a gap. -/
theorem processFailure_after :
    After (processFailure lib plan.ops s result) trace fun r new =>
      r.1.presence = (s.gap result.feedName "http_observation_gap").presence ∧
      Adds (fun ev => ¬ ev.IsPresence) trace new := by
  unfold processFailure
  refine After.bind (Q := fun r new => r = plan.health ∧
    ∃ monitor, new = trace ++ [.health monitor r]) ⟨rfl, _, rfl⟩ ?_
  rintro r new ⟨-, monitor, rfl⟩
  cases r with
  | error e => exact ⟨rfl, Adds.one (fun h => h)⟩
  | ok u =>
    refine (appendEvent_after lib plan _ result _ _).bind ?_
    rintro ⟨s', appended⟩ new ⟨⟨monitor', hs'⟩, -, rfl⟩
    obtain rfl : s' = _ := hs'
    exact ⟨rfl, (Adds.one (fun h => h)).trans (Adds.one (fun h => h))⟩

/-- **Presence, over a whole response**: the instance and the presence events are those of the
presence block. -/
theorem processPayload_presence :
    After (processPayload c lib plan.ops s result payload) trace fun r new =>
      ∃ ok evs, PresenceStep lib plan result (parsePayload lib result payload) s.presence
        r.1.presence ok evs ∧ presenceEvents new = presenceEvents trace ++ evs := by
  have hraw : ∀ ev, StorageEvent.IsRaw ev → ¬ ev.IsPresence := fun ev h hp => by
    cases ev <;> first | exact h | exact hp
  have hstage : ∀ ev, StorageEvent.IsStage ev → ¬ ev.IsPresence := fun ev h hp => by
    cases ev <;> first | exact h | exact hp
  unfold processPayload
  refine (archive_after c lib plan s result payload trace .regular false).bind ?_
  rintro ⟨s1, raw1⟩ t1 ⟨⟨memory1, hs1⟩, hadds1, -⟩
  obtain rfl : s1 = _ := hs1
  refine (archiveUnless_after c lib plan _ result payload t1 .auxiliary _ raw1).bind ?_
  rintro ⟨s2, raw2⟩ t2 ⟨⟨memory2, hs2⟩, hadds2, -⟩
  obtain rfl : s2 = _ := hs2
  refine (observePresence_after lib plan _ result _ t2).bind ?_
  rintro ⟨s3, presence⟩ t3 ⟨p, evs, hs3, rfl, hstep⟩
  obtain rfl : s3 = _ := hs3
  refine (trackRows_after lib plan _ result _ _).bind ?_
  rintro ⟨s4, tracked⟩ t4 ⟨⟨trackers, hs4⟩, hadds4, -⟩
  obtain rfl : s4 = _ := hs4
  refine (archiveUnless_after c lib plan _ result payload t4 .fallback _ raw2).bind ?_
  rintro ⟨s5, raw5⟩ t5 ⟨⟨memory5, hs5⟩, hadds5, -⟩
  obtain rfl : s5 = _ := hs5
  refine (finish_after c lib plan _ result payload _ t5 _ presence tracked raw5).mono ?_
  rintro r new ⟨hpresence, hadds, -⟩
  have hadvance : ∀ s : CollectorState,
      (advanceAuxiliary lib s result (parsePayload lib result payload) raw5).presence =
        s.presence := by
    intro s
    unfold advanceAuxiliary
    split
    · split <;> rfl
    · rfl
  refine ⟨presence.ok, evs, ?_, ?_⟩
  · rw [hpresence, hadvance]
    exact hstep
  · have hall : evs.filter (·.IsPresence) = evs :=
      List.filter_eq_self.mpr (by simpa using hstep.isPresence)
    have hevs : presenceEvents (t2 ++ evs) = presenceEvents t2 ++ evs := by
      unfold presenceEvents
      rw [List.filter_append, hall]
    rw [hadds.presenceEvents, (hadds5.mono hraw).presenceEvents,
      (hadds4.mono hstage).presenceEvents, hevs, (hadds2.mono hraw).presenceEvents,
      (hadds1.mono hraw).presenceEvents]

/-- A response without a payload is a gap. -/
theorem process_presence_none (hpayload : result.payload = none) :
    (process c lib plan s result).1.1.presence =
      (s.gap result.feedName "http_observation_gap").presence ∧
    presenceEvents (process c lib plan s result).2 = [] := by
  have h : After (processResult c lib plan.ops s result) [] fun r new =>
      r.1.presence = (s.gap result.feedName "http_observation_gap").presence ∧
        presenceEvents new = [] := by
    refine (writeRunMetadata_after plan s []).bind ?_
    rintro s0 t0 ⟨⟨written, rfl⟩, hadds⟩
    rw [hpayload]
    refine (processFailure_after lib plan _ result t0).mono fun r new h => ⟨?_, ?_⟩
    · rw [h.1]
      unfold CollectorState.gap
      split <;> rfl
    · rw [h.2.presenceEvents, (hadds.mono fun ev hev => hev ▸ (fun h => h)).presenceEvents]
      rfl
  exact h

/-- A response with a payload goes through the presence block. -/
theorem process_presence_some (hpayload : result.payload = some payload) :
    ∃ ok, PresenceStep lib plan result (parsePayload lib result payload) s.presence
      (process c lib plan s result).1.1.presence ok
      (presenceEvents (process c lib plan s result).2) := by
  have h : After (processResult c lib plan.ops s result) [] fun r new =>
      ∃ ok, PresenceStep lib plan result (parsePayload lib result payload) s.presence
        r.1.presence ok (presenceEvents new) := by
    refine (writeRunMetadata_after plan s []).bind ?_
    rintro s0 t0 ⟨⟨written, rfl⟩, hadds⟩
    rw [hpayload]
    refine (processPayload_presence c lib plan _ result payload t0).mono fun r new h => ?_
    obtain ⟨ok, evs, hstep, hevs⟩ := h
    rw [(hadds.mono fun ev hev => hev ▸ (fun h => h)).presenceEvents] at hevs
    exact ⟨ok, hevs ▸ hstep⟩
  exact h

end steps

/-! ### Sample responses -/

/-- The bytes of a `FeedMessage` of version 2.0 without entities. -/
def emptyMessage : Bytes := [0x0a, 0x05, 0x0a, 0x03, 0x32, 0x2e, 0x30]

/-- An entity `1` with a TripUpdate of the trip with this id of two bytes. -/
def tripEntity (id : Bytes) : Bytes := [0x0a, 0x01, 0x31, 0x1a, 0x06, 0x0a, 0x04, 0x0a, 0x02] ++ id

/-- A `FeedMessage` with one such entity. -/
def tripMessage (id : Bytes) : Bytes := emptyMessage ++ [0x12, 0x0b] ++ tripEntity id

/-- The id `T1`. -/
def goodId : Bytes := [0x54, 0x31]

/-- An id that is not UTF-8. -/
def brokenId : Bytes := [0xff, 0x31]

/-- The SHA-256 digests of the sample messages, and of their content. -/
def sampleDigests : List (Bytes × String) :=
  [([], "e3b0c44298fc1c149afbf4c8996fb92427ae41e4649b934ca495991b7852b855"),
    (emptyMessage, "df9141d70fbacabfa2946fe481f2fded57cb4fd1fc352d97c620c819fe5dfa87"),
    (tripMessage goodId, "9bf7634ad29574a564781b8b5ca900ebf8bf8c2e82dbc7a7d8b3e4cf6e61f3ba"),
    (digestInput [tripEntity goodId],
      "59250726d622c956578b76cfe03d5c625f24428df24fed6002e6cb2aae2151eb"),
    (tripMessage brokenId, "85282a6c0181da6f96626ecbdf87c7937226a95cafc246e414c02214e82a78a9"),
    (digestInput [tripEntity brokenId],
      "6fd02e1751b28bfd32d8036f24c142b16c70b25a913e4308dc889b0a00545324")]

/-- The entity of a sample message. -/
def sampleEntity (id : Bytes) : Entity where
  isDeleted := false
  payloads := ["trip_update"]
  timestamp := none
  serialized := tripEntity id
  deterministic := tripEntity id

/-- The columns of a sample entity's row that are not null and that presence or change tracking look
at. -/
def sampleEntityRow (entity : Entity) : Row :=
  [("entity_id", .str "1"),
    ("trip_id", if entity.serialized = tripEntity goodId then .str "T1" else .bytes brokenId)]

/-- Libraries that agree with the real ones on the sample messages, received on the first of January
2026. -/
def sampleLibraries : Libraries where
  parseFeed payload :=
    if payload = emptyMessage then .ok ⟨none, 0, []⟩
    else if payload = tripMessage goodId then .ok ⟨none, 0, [sampleEntity goodId]⟩
    else if payload = tripMessage brokenId then .ok ⟨none, 0, [sampleEntity brokenId]⟩
    else .error ⟨.valueError, "Error parsing message"⟩
  parsers _ message _ := .ok (message.entities.map sampleEntityRow)
  sha256 bytes := (sampleDigests.lookup bytes).getD ""
  json := plainJson
  redact := PyError.text
  utcDate _ := "2026-01-01"

/-- A TripUpdates response received so many seconds after the start of the year. -/
def sampleResult (pollId : String) (seconds : ℚ) (payload : Option Bytes) : FetchResult where
  feedName := .tripupdates
  pollId := pollId
  requestStartedAt := "2026-01-01T00:00:00+00:00"
  responseReceivedAt := "2026-01-01T00:00:00+00:00"
  responseReceivedTs := 1767225600 + seconds
  httpStatus := some 200
  payload := payload
  error := none

end BkkCollector.Collector.Outcomes
