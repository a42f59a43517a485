import BkkCollector.Collector.AuxiliaryState
import BkkCollector.Logic.Steady

/-! # Content that does not change

Vehicle positions and trip updates that stay the same for too long mean that the source hangs. The
health state remembers the digest of the content of the last response, and since when it has been
the same; the digest of a response that did not parse is that of its payload.

* `process_health`: what a response does to this memory, and which flags it returns.
* `Remembers`: the memory is that of an observer of the polls that parsed (`Logic.Steady`).
* `frozenContent`: in every run in which no response that does not parse replaces the digest, and no
  restart follows a failed health write, `payload_frozen` says that the content has been the same
  for too long.
* `not_frozenContent`: one response that does not parse starts the measurement anew.
-/

namespace BkkCollector.Collector.FrozenContent

open BkkCollector.Python.Objects BkkCollector.Python.Collections BkkCollector.Config
open BkkCollector.Monitoring BkkCollector.Logic.Steady
open BkkCollector.Collector.RawArchive BkkCollector.Collector.ProcessResult
open BkkCollector.Collector.Outcomes BkkCollector.Realtime.Dedup
open BkkCollector.Collector.AuxiliaryState (perm_of_digestInput)
open BkkCollector.Collector.PresenceGaps (Driver Input handle)
open BkkCollector.Realtime.DedupFlow (defaultConfig)

/-! ### Health in a trace -/

/-- The health writes in a trace: the monitor, and did the write succeed. -/
def healthWrites (trace : Trace) : List (HealthMonitor × Bool) :=
  trace.filterMap fun ev =>
    match ev with
    | .health monitor outcome => some (monitor, outcome.isOk)
    | _ => none

/-- An event that is no health write. -/
def NoHealth : StorageEvent → Prop
  | .health .. => False
  | _ => True

theorem healthWrites_adds {old new : Trace} (h : Adds NoHealth old new) :
    healthWrites new = healthWrites old := by
  obtain ⟨evs, rfl, hevs⟩ := h
  have hnone : healthWrites evs = [] := by
    refine List.filterMap_eq_nil_iff.mpr fun ev hev => ?_
    have := hevs ev hev
    cases ev <;> first | rfl | exact absurd this id
  unfold healthWrites at hnone ⊢
  rw [List.filterMap_append, hnone, List.append_nil]

theorem noHealth_of_isRaw {ev : StorageEvent} (h : ev.IsRaw) : NoHealth ev := by
  cases ev <;> trivial

theorem noHealth_of_isStage {ev : StorageEvent} (h : ev.IsStage) : NoHealth ev := by
  cases ev <;> trivial

/-- The flags the last response of a trace returned. -/
def returnedFlags (feed : Feed) (trace : Trace) : List String :=
  ((healthWrites trace).getLast?.map fun w => (w.1.feeds feed).freshnessFlags).getD []

/-- What a restart behind a trace loads. -/
def savedAfter (saved : Feed → FeedHealth) (trace : Trace) : Feed → FeedHealth :=
  (((healthWrites trace).filter (·.2)).getLast?.map fun w => w.1.feeds).getD saved

/-! ### What a response does to the health state -/

/-- What the state of a feed remembers of its content. -/
structure ContentMemory where
  contentSha256 : Option String
  payloadSha256 : Option String
  payloadUnchangedSince : Option ℚ
  deriving DecidableEq

/-- The content memory of a feed. -/
def contentOf (h : FeedHealth) : ContentMemory :=
  ⟨h.contentSha256, h.payloadSha256, h.payloadUnchangedSince⟩

section Process

variable (c : CollectorConfig) (lib : Libraries) (plan : Plan) (s : CollectorState)
  (result : FetchResult) (payload : Bytes) (parsed : Parsed) (trace : Trace)

/-- The content memories of a monitor and the health writes of a trace, behind a call that hands
`monitor` to the health write. -/
structure Reports (monitor : HealthMonitor) (s : CollectorState) (old new : Trace) : Prop where
  limit : s.monitor.frozenSeconds = monitor.frozenSeconds
  content : ∀ feed, contentOf (s.monitor.feeds feed) = contentOf (monitor.feeds feed)
  writes : healthWrites new = healthWrites old ++ [(monitor, plan.health.isOk)]

theorem contentOf_journal (monitor : HealthMonitor) (feed feed' : Feed) (ok : Bool) :
    contentOf ((monitor.journal feed ok).feeds feed') = contentOf (monitor.feeds feed') := by
  by_cases h : feed' = feed
  · subst h
    simp [HealthMonitor.journal, HealthMonitor.set, contentOf]
  · simp [HealthMonitor.journal, HealthMonitor.set, h]

theorem appendEvent_reports (event : JournalEvent) :
    After (appendEvent lib plan.ops s result event) trace fun r new =>
      (∃ ok, r.1 = { s with monitor := s.monitor.journal result.feedName ok }) ∧
      healthWrites new = healthWrites trace := by
  refine After.bind (Q := fun r new => r = plan.journal ∧
    new = trace ++ [.journal result.feedName (lib.utcDate result.responseReceivedTs) event r])
    ⟨rfl, rfl⟩ ?_
  rintro r new ⟨-, rfl⟩
  cases r with
  | error e => exact ⟨⟨false, rfl⟩, healthWrites_adds (Adds.one trivial)⟩
  | ok u => exact ⟨⟨true, rfl⟩, healthWrites_adds (Adds.one trivial)⟩

theorem finish_reports (changed : Bool) (presence : PresenceOutcome) (tracked : Tracked)
    (raw : RawOutcome) :
    After (finish c lib plan.ops s result payload parsed changed presence tracked raw) trace
      fun r new => Reports plan (s.monitor.recordSuccess result.feedName
        (successOf result parsed presence tracked raw)).1 r.1 trace new := by
  unfold finish
  refine After.bind (Q := fun r new => r = plan.health ∧
    new = trace ++ [.health (s.monitor.recordSuccess result.feedName
      (successOf result parsed presence tracked raw)).1 r]) ⟨rfl, rfl⟩ ?_
  rintro r new ⟨hr, rfl⟩
  have hwrites : healthWrites (trace ++ [.health (s.monitor.recordSuccess result.feedName
      (successOf result parsed presence tracked raw)).1 r]) = healthWrites trace ++
      [((s.monitor.recordSuccess result.feedName
        (successOf result parsed presence tracked raw)).1, plan.health.isOk)] := by
    rw [hr]
    simp [healthWrites]
  cases r with
  | error e => exact ⟨rfl, fun feed => rfl, hwrites⟩
  | ok u =>
    refine (appendEvent_reports lib plan _ result _ _).bind ?_
    rintro ⟨s', appended⟩ new ⟨⟨ok, hs'⟩, happended⟩
    obtain rfl : s' = _ := hs'
    refine (journalFallback_after c lib plan _ result payload _ appended raw.archived).bind ?_
    rintro s'' new' ⟨⟨raw', rfl⟩, hadds, -⟩
    have hfallback := healthWrites_adds (hadds.mono fun ev => noHealth_of_isRaw)
    exact ⟨rfl, fun feed => contentOf_journal _ _ _ _, hfallback.trans (happended.trans hwrites)⟩

/-- **A response with a payload** reports it to the monitor once. -/
theorem processPayload_reports :
    After (processPayload c lib plan.ops s result payload) trace fun r new =>
      ∃ presence tracked raw, Reports plan (s.monitor.recordSuccess result.feedName
        (successOf result (parsePayload lib result payload) presence tracked raw)).1 r.1
        trace new := by
  unfold processPayload
  refine (archive_after c lib plan s result payload trace .regular false).bind ?_
  rintro ⟨s1, raw1⟩ t1 ⟨⟨memory1, hs1⟩, hadds1, -⟩
  obtain rfl : s1 = _ := hs1
  refine (archiveUnless_after c lib plan _ result payload t1 .auxiliary _ raw1).bind ?_
  rintro ⟨s2, raw2⟩ t2 ⟨⟨memory2, hs2⟩, hadds2, -⟩
  obtain rfl : s2 = _ := hs2
  refine (observePresence_after lib plan _ result _ t2).bind ?_
  rintro ⟨s3, presence⟩ t3 ⟨p, evs, hs3, rfl, hstep⟩
  obtain rfl : s3 = _ := hs3
  refine (trackRows_after lib plan _ result _ _).bind ?_
  rintro ⟨s4, tracked⟩ t4 ⟨⟨trackers, hs4⟩, hadds4, -⟩
  obtain rfl : s4 = _ := hs4
  refine (archiveUnless_after c lib plan _ result payload t4 .fallback _ raw2).bind ?_
  rintro ⟨s5, raw5⟩ t5 ⟨⟨memory5, hs5⟩, hadds5, -⟩
  obtain rfl : s5 = _ := hs5
  refine (finish_reports c lib plan _ result payload _ t5 _ presence tracked raw5).mono ?_
  rintro r new ⟨hlimit, hcontent, hwrites⟩
  have hadvance : ∀ s : CollectorState,
      (advanceAuxiliary lib s result (parsePayload lib result payload) raw5).monitor =
        s.monitor := by
    intro s
    unfold advanceAuxiliary
    split
    · split <;> rfl
    · rfl
  rw [hadvance] at hlimit hcontent hwrites
  refine ⟨presence, tracked, raw5, hlimit, hcontent, ?_⟩
  have hpresence : Adds NoHealth t2 (t2 ++ evs) := ⟨evs, rfl, fun ev hev => by
    have := hstep.isPresence ev hev
    cases ev <;> trivial⟩
  rw [hwrites, healthWrites_adds (hadds5.mono fun ev => noHealth_of_isRaw),
    healthWrites_adds (hadds4.mono fun ev => noHealth_of_isStage), healthWrites_adds hpresence,
    healthWrites_adds (hadds2.mono fun ev => noHealth_of_isRaw),
    healthWrites_adds (hadds1.mono fun ev => noHealth_of_isRaw)]

theorem gap_monitor (feed : Feed) (reason : String) : (s.gap feed reason).monitor = s.monitor := by
  unfold CollectorState.gap
  split <;> rfl

/-- A failed request is reported as one. -/
theorem processFailure_reports :
    After (processFailure lib plan.ops s result) trace fun r new =>
      Reports plan (s.monitor.recordFailure result.feedName
        (result.error.getD "unknown fetch failure")) r.1 trace new := by
  unfold processFailure
  simp only [gap_monitor]
  refine After.bind (Q := fun r new => r = plan.health ∧
    new = trace ++ [.health (s.monitor.recordFailure result.feedName
      (result.error.getD "unknown fetch failure")) r]) ⟨rfl, rfl⟩ ?_
  rintro r new ⟨hr, rfl⟩
  have hwrites : healthWrites (trace ++ [.health (s.monitor.recordFailure result.feedName
      (result.error.getD "unknown fetch failure")) r]) = healthWrites trace ++
      [(s.monitor.recordFailure result.feedName (result.error.getD "unknown fetch failure"),
        plan.health.isOk)] := by
    rw [hr]
    simp [healthWrites]
  cases r with
  | error e => exact ⟨rfl, fun feed => rfl, hwrites⟩
  | ok u =>
    refine (appendEvent_reports lib plan _ result _ _).bind ?_
    rintro ⟨s', appended⟩ new ⟨⟨ok, hs'⟩, happended⟩
    obtain rfl : s' = _ := hs'
    exact ⟨rfl, fun feed => contentOf_journal _ _ _ _, happended.trans hwrites⟩

/-- What `process_result` reports of a response. -/
theorem process_reports :
    ∃ monitor, Reports plan monitor (process c lib plan s result).1.1 []
        (process c lib plan s result).2 ∧
      match result.payload with
      | none => monitor = s.monitor.recordFailure result.feedName
          (result.error.getD "unknown fetch failure")
      | some payload => ∃ presence tracked raw, monitor = (s.monitor.recordSuccess result.feedName
          (successOf result (parsePayload lib result payload) presence tracked raw)).1 := by
  have h : After (processResult c lib plan.ops s result) [] fun r new =>
      ∃ monitor, Reports plan monitor r.1 [] new ∧
        match result.payload with
        | none => monitor = s.monitor.recordFailure result.feedName
            (result.error.getD "unknown fetch failure")
        | some payload => ∃ presence tracked raw, monitor =
            (s.monitor.recordSuccess result.feedName
              (successOf result (parsePayload lib result payload) presence tracked raw)).1 := by
    refine (writeRunMetadata_after plan s []).bind ?_
    rintro s0 t0 ⟨⟨written, rfl⟩, hadds⟩
    have hstart := healthWrites_adds (hadds.mono fun ev hev => by
      rw [hev]
      trivial)
    cases hpayload : result.payload with
    | none =>
      refine (processFailure_reports lib plan _ result t0).mono ?_
      rintro r new ⟨hlimit, hcontent, hwrites⟩
      exact ⟨_, ⟨hlimit, hcontent, by rw [hwrites, hstart]⟩, rfl⟩
    | some payload =>
      refine (processPayload_reports c lib plan _ result payload t0).mono ?_
      rintro r new ⟨presence, tracked, raw, hlimit, hcontent, hwrites⟩
      exact ⟨_, ⟨hlimit, hcontent, by rw [hwrites, hstart]⟩, presence, tracked, raw, rfl⟩
  exact h

end Process

/-! ### Runs -/

/-- A poll of a feed that parsed: when it was received, and its serialized entities. -/
def parsedPoll (lib : Libraries) (feed : Feed) : Input → Option (ℚ × List Bytes)
  | .result _ _ result =>
    if result.feedName = feed then
      result.payload.bind fun payload =>
        let parsed := parsePayload lib result payload
        if parsed.ok then
          parsed.feed.map fun message =>
            (result.responseReceivedTs, message.entities.map Entity.serialized)
        else none
    else none
  | _ => none

/-- When a response was received. -/
def receivedAt : Input → Option ℚ
  | .result _ _ result => some result.responseReceivedTs
  | _ => none

/-- A run: the collector, the health state it saved last, and the polls of a feed that parsed. -/
structure World where
  state : CollectorState
  saved : Feed → FeedHealth := fun _ => {}
  polls : List (ℚ × List Bytes) := []

/-- A restart loads the saved state. -/
def World.reload (w : World) : Input → Input
  | .restart runId streamId _ => .restart runId streamId w.saved
  | input => input

/-- One input. -/
def World.step (c : CollectorConfig) (lib : Libraries) (feed : Feed) (w : World) (input : Input) :
    World :=
  let (state, trace) := handle c lib w.state (w.reload input)
  { state
    saved := savedAfter w.saved trace
    polls := w.polls ++ (parsedPoll lib feed input).toList }

/-- The inputs of a run. -/
def World.run (c : CollectorConfig) (lib : Libraries) (feed : Feed) (w : World)
    (inputs : List Input) : World :=
  inputs.foldl (World.step c lib feed) w

/-- A first start, without a saved state. -/
def World.start (c : CollectorConfig) (runId streamId : String) : World where
  state := CollectorState.start c runId streamId fun _ => {}

/-- **Frozen content is detected**: if an input is a poll that parsed, `payload_frozen` is returned
exactly if the content has been the same in all polls that parsed since one that is more than the
limit earlier. -/
def Detects (c : CollectorConfig) (lib : Libraries) (feed : Feed) (w : World) (input : Input) :
    Prop :=
  ∀ p, parsedPoll lib feed input = some p →
    (Flag.payloadFrozen.name ∈ returnedFlags feed (handle c lib w.state input).2 ↔
      SteadySince List.Perm (fun t => c.frozenPayloadSeconds < p.1 - t) w.polls p.2)

/-- A step that leaves the measurement alone: a response that does not parse has the digest that is
remembered, and a restart loads what the monitor remembers. -/
def Spared (lib : Libraries) (feed : Feed) (w : World) : Input → Prop
  | .result _ _ result => result.feedName = feed → ∀ payload, result.payload = some payload →
      (parsePayload lib result payload).ok = true ∨
        (w.state.monitor.feeds feed).contentSha256 =
          some (parsePayload lib result payload).contentHash
  | .workerError .. => True
  | .restart .. => contentOf (w.saved feed) = contentOf (w.state.monitor.feeds feed)

/-- Every step of a run leaves the measurement alone. -/
def SparedAlong (c : CollectorConfig) (lib : Libraries) (feed : Feed) : World → List Input → Prop
  | _, [] => True
  | w, input :: inputs =>
    Spared lib feed w input ∧ SparedAlong c lib feed (w.step c lib feed input) inputs

/-- What the code outside of this model promises for the polls of a run: protobuf values are smaller
than `2 ^ 64` bytes, and no two of the digests collide. -/
structure Promises (lib : Libraries) (feed : Feed) (inputs : List Input) : Prop where
  size : ∀ payload message, lib.parseFeed payload = .ok message →
    ∀ e ∈ message.entities, e.serialized.length < 2 ^ 64
  sha256 : ∀ p ∈ inputs.filterMap (parsedPoll lib feed),
    ∀ q ∈ inputs.filterMap (parsedPoll lib feed),
    lib.sha256 (digestInput p.2) = lib.sha256 (digestInput q.2) → digestInput p.2 = digestInput q.2

/-! ### Digests -/

theorem digestInput_perm {a b : List Bytes} (h : a.Perm b) : digestInput a = digestInput b := by
  have hperm : (a.insertionSort (· ≤ ·)).Perm (b.insertionSort (· ≤ ·)) :=
    (List.perm_insertionSort _ a).trans (h.trans (List.perm_insertionSort _ b).symm)
  have hsorted : a.insertionSort (· ≤ ·) = b.insertionSort (· ≤ ·) :=
    hperm.eq_of_pairwise' (List.pairwise_insertionSort _ a) (List.pairwise_insertionSort _ b)
  rw [digestInput, digestInput, hsorted]

theorem parsedPoll_spec {lib : Libraries} {feed : Feed} {input : Input} {p : ℚ × List Bytes}
    (h : parsedPoll lib feed input = some p) :
    ∃ driver plan result payload message, input = .result driver plan result ∧
      result.feedName = feed ∧ result.payload = some payload ∧
      lib.parseFeed payload = .ok message ∧ (parsePayload lib result payload).ok = true ∧
      (parsePayload lib result payload).contentHash = lib.sha256 (digestInput p.2) ∧
      p = (result.responseReceivedTs, message.entities.map Entity.serialized) := by
  cases input with
  | workerError driver feed => cases h
  | restart runId streamId feeds => cases h
  | result driver plan result =>
    simp only [parsedPoll] at h
    split_ifs at h with hfeed
    obtain ⟨payload, hpayload, h⟩ := Option.bind_eq_some_iff.mp h
    split_ifs at h with hok
    obtain ⟨message, hmessage, rfl⟩ := Option.map_eq_some_iff.mp h
    refine ⟨driver, plan, result, payload, message, rfl, hfeed, hpayload, ?_⟩
    unfold parsePayload at hok hmessage ⊢
    cases hparse : lib.parseFeed payload with
    | error e =>
      rw [hparse] at hok
      cases hok
    | ok message' =>
      rw [hparse] at hok hmessage
      simp only at hok hmessage ⊢
      cases hvalid : validateFeedEntities result.feedName message' with
      | error e =>
        rw [hvalid] at hok
        cases hok
      | ok u =>
        rw [hvalid] at hok hmessage
        simp only at hok hmessage ⊢
        cases hrows : lib.parsers result.feedName message' (parseContext result message') with
        | error e =>
          rw [hrows] at hok
          cases hok
        | ok rows =>
          rw [hrows] at hmessage
          cases hmessage
          exact ⟨rfl, rfl, rfl, trivial⟩

theorem feed_of_ok {lib : Libraries} {result : FetchResult} {payload : Bytes}
    (h : (parsePayload lib result payload).ok = true) :
    ∃ message, (parsePayload lib result payload).feed = some message := by
  unfold parsePayload at h ⊢
  split at h
  · cases h
  · next message _ =>
    split at h
    · cases h
    · refine ⟨message, ?_⟩
      split <;> rfl

/-! ### The measurement -/

/-- The memory of an observer of the polls that parsed. -/
def expected (lib : Libraries) (kept : Option (List Bytes × ℚ)) : ContentMemory :=
  ⟨kept.map fun k => lib.sha256 (digestInput k.1), none, kept.map Prod.snd⟩

/-- The invariant: the state of the feed is the memory of an observer of the polls so far. -/
structure Remembers (c : CollectorConfig) (lib : Libraries) (feed : Feed) (w : World) : Prop where
  limit : w.state.monitor.frozenSeconds = c.frozenPayloadSeconds
  content : contentOf (w.state.monitor.feeds feed) = expected lib (measure List.Perm w.polls)

theorem contentOf_recordFailure (m : HealthMonitor) (feed feed' : Feed) (error : String) :
    contentOf ((m.recordFailure feed error).feeds feed') = contentOf (m.feeds feed') := by
  by_cases h : feed' = feed
  · subst h
    simp [HealthMonitor.recordFailure, HealthMonitor.set, contentOf]
  · simp [HealthMonitor.recordFailure, HealthMonitor.set, h]

theorem contentOf_recordSuccess_of_ne (m : HealthMonitor) {feed feed' : Feed} (h : feed' ≠ feed)
    (s : Success) :
    contentOf ((m.recordSuccess feed s).1.feeds feed') = contentOf (m.feeds feed') := by
  simp [HealthMonitor.recordSuccess, HealthMonitor.set, h]

theorem contentOf_recordSuccess (m : HealthMonitor) (feed : Feed) (s : Success) :
    contentOf ((m.recordSuccess feed s).1.feeds feed) =
      ⟨some s.contentSha256, (m.feeds feed).payloadSha256,
        (m.seen feed s).payloadUnchangedSince⟩ := by
  simp [HealthMonitor.recordSuccess, HealthMonitor.set, contentOf, HealthMonitor.seen]

theorem freshnessFlags_recordSuccess (m : HealthMonitor) (feed : Feed) (s : Success) :
    ((m.recordSuccess feed s).1.feeds feed).freshnessFlags =
      sortedSet ((m.successFlags feed s).map Flag.name) := by
  simp [HealthMonitor.recordSuccess, HealthMonitor.set]

/-- `payload_frozen` is about the content alone. -/
theorem payloadFrozen_mem_iff {m : HealthMonitor} {feed : Feed} (hfeed : feed ≠ .alerts)
    {s : Success} (hflag : s.changeTrackingFailureFlag ≠ some .payloadFrozen) :
    Flag.payloadFrozen.name ∈ sortedSet ((m.successFlags feed s).map Flag.name) ↔
      m.frozenSeconds <
        s.nowTs - (m.seen feed s).payloadUnchangedSince.getD s.nowTs := by
  have hname : ∀ f : Flag, f.name = Flag.payloadFrozen.name ↔ f = .payloadFrozen := by
    intro f
    cases f <;> decide
  have htracking : s.changeTrackingFailureFlag.getD .changeTrackerFailed ≠ .payloadFrozen := by
    cases h : s.changeTrackingFailureFlag with
    | none => decide
    | some f => exact fun hf => hflag (h.trans (congrArg some hf))
  simp only [mem_sortedSet, List.mem_map, hname, exists_eq_right]
  unfold HealthMonitor.successFlags evaluateFreshness
  simp only [if_neg hfeed, List.mem_append]
  cases s.headerTimestamp <;> cases s.maxEntityTimestamp <;>
    simp [List.mem_ite_nil_right, htracking.symm]

section Memory

variable {lib : Libraries} {feed : Feed} {m : HealthMonitor} {s : Success}

theorem seen_since (m : HealthMonitor) (feed : Feed) (s : Success) :
    (m.seen feed s).payloadUnchangedSince =
      if ((contentOf (m.feeds feed)).contentSha256.orElse fun _ =>
          (contentOf (m.feeds feed)).payloadSha256) ≠ some s.contentSha256 then some s.nowTs
      else some ((contentOf (m.feeds feed)).payloadUnchangedSince.getD s.nowTs) :=
  rfl

/-- A poll that parsed is an observation. -/
theorem seen_since_of_parsed {polls : List (ℚ × List Bytes)} {p : ℚ × List Bytes}
    (hm : contentOf (m.feeds feed) = expected lib (measure List.Perm polls))
    (hsha : s.contentSha256 = lib.sha256 (digestInput p.2)) (hnow : s.nowTs = p.1)
    (hperm : ∀ q ∈ polls,
      lib.sha256 (digestInput q.2) = lib.sha256 (digestInput p.2) ↔ List.Perm q.2 p.2) :
    (m.seen feed s).payloadUnchangedSince =
      some (observe List.Perm (measure List.Perm polls) p).2 := by
  rw [seen_since, hm, hsha, hnow]
  cases hmeasure : measure List.Perm polls with
  | none => rfl
  | some kept =>
    obtain ⟨a, since⟩ := kept
    obtain ⟨q, hq, hqa⟩ := value_of_measure List.Perm hmeasure
    have hiff := hperm q hq
    rw [hqa] at hiff
    by_cases hsame : a.Perm p.2
    · simp [expected, observe, hsame, hiff.mpr hsame]
    · simp [expected, observe, hsame, mt hiff.mp hsame]

/-- A response with the digest that is remembered changes nothing. -/
theorem seen_since_of_same {kept : Option (List Bytes × ℚ)}
    (hm : contentOf (m.feeds feed) = expected lib kept)
    (hsha : (m.feeds feed).contentSha256 = some s.contentSha256) :
    (m.seen feed s).payloadUnchangedSince = kept.map Prod.snd := by
  have hkept : (expected lib kept).contentSha256 = some s.contentSha256 := by
    rw [← hm]
    exact hsha
  rw [seen_since, hm, hkept]
  cases kept with
  | none => cases hkept
  | some k => simp [expected]

end Memory

/-! ### Steps -/

section Step

variable {c : CollectorConfig} {lib : Libraries} {feed : Feed} {w : World}

theorem handle_reports (c : CollectorConfig) (lib : Libraries) (s : CollectorState)
    (driver : Driver) (plan : Plan) (result : FetchResult) :
    ∃ monitor, Reports plan monitor (handle c lib s (.result driver plan result)).1 []
        (handle c lib s (.result driver plan result)).2 ∧
      match result.payload with
      | none => monitor = s.monitor.recordFailure result.feedName
          (result.error.getD "unknown fetch failure")
      | some payload => ∃ presence tracked raw, monitor = (s.monitor.recordSuccess result.feedName
          (successOf result (parsePayload lib result payload) presence tracked raw)).1 := by
  obtain ⟨monitor, ⟨hlimit, hcontent, hwrites⟩, hmonitor⟩ := process_reports c lib plan s result
  have hgap : (handle c lib s (.result driver plan result)).1.monitor =
      (process c lib plan s result).1.1.monitor ∧
      (handle c lib s (.result driver plan result)).2 = (process c lib plan s result).2 := by
    simp only [handle]
    generalize process c lib plan s result = processed
    obtain ⟨⟨s', outcome⟩, trace⟩ := processed
    cases outcome <;> cases driver <;> first | exact ⟨rfl, rfl⟩ | exact ⟨gap_monitor .., rfl⟩
  rw [← hgap.1] at hlimit hcontent
  rw [← hgap.2] at hwrites
  exact ⟨monitor, ⟨hlimit, hcontent, hwrites⟩, hmonitor⟩

theorem returnedFlags_of_writes {trace : Trace} {monitor : HealthMonitor} {ok : Bool}
    (h : healthWrites trace = healthWrites [] ++ [(monitor, ok)]) :
    returnedFlags feed trace = (monitor.feeds feed).freshnessFlags := by
  rw [returnedFlags, h]
  rfl

theorem failureFlag_ne (e : PyError) : failureFlag e ≠ .payloadFrozen := by
  unfold failureFlag
  split <;> decide

/-- Two polls of a run have the same digest exactly if their entities are the same, up to order. -/
theorem Promises.sha256_iff {inputs : List Input} (hp : Promises lib feed inputs)
    {p q : ℚ × List Bytes} (hmemp : p ∈ inputs.filterMap (parsedPoll lib feed))
    (hmemq : q ∈ inputs.filterMap (parsedPoll lib feed)) :
    lib.sha256 (digestInput q.2) = lib.sha256 (digestInput p.2) ↔ q.2.Perm p.2 := by
  have hsize : ∀ p ∈ inputs.filterMap (parsedPoll lib feed), ∀ v ∈ p.2, v.length < 2 ^ 64 := by
    intro p hmem v hv
    obtain ⟨input, -, hpoll⟩ := List.mem_filterMap.mp hmem
    obtain ⟨_, _, _, payload, message, -, -, -, hparse, -, -, rfl⟩ := parsedPoll_spec hpoll
    obtain ⟨e, he, rfl⟩ := List.mem_map.mp hv
    exact hp.size payload message hparse e he
  refine ⟨fun h => ?_, fun h => by rw [digestInput_perm h]⟩
  exact perm_of_digestInput (hsize q hmemq) (hsize p hmemp) (hp.sha256 q hmemq p hmemp h)

/-- **A poll that parsed** is an observation, and returns `payload_frozen` as the measurement with
it says. -/
theorem Remembers.parsed {inputs : List Input} (h : Remembers c lib feed w) (hfeed : feed ≠ .alerts)
    (hp : Promises lib feed inputs)
    (hpolls : w.polls ⊆ inputs.filterMap (parsedPoll lib feed)) {input : Input}
    (hinput : input ∈ inputs) {p : ℚ × List Bytes} (hpoll : parsedPoll lib feed input = some p) :
    Remembers c lib feed (w.step c lib feed input) ∧
      (Flag.payloadFrozen.name ∈ returnedFlags feed (handle c lib w.state input).2 ↔
        c.frozenPayloadSeconds < p.1 - (observe List.Perm (measure List.Perm w.polls) p).2) := by
  have hmem : p ∈ inputs.filterMap (parsedPoll lib feed) :=
    List.mem_filterMap.mpr ⟨input, hinput, hpoll⟩
  obtain ⟨driver, plan, result, payload, message, rfl, rfl, hpayload, -, -, hhash, hp'⟩ :=
    parsedPoll_spec hpoll
  obtain ⟨monitor, ⟨hlimit, hcontent, hwrites⟩, hmonitor⟩ :=
    handle_reports c lib w.state driver plan result
  rw [hpayload] at hmonitor
  obtain ⟨presence, tracked, raw, rfl⟩ := hmonitor
  have hnow : (successOf result (parsePayload lib result payload) presence tracked raw).nowTs =
      p.1 := by
    rw [hp']
    rfl
  have hsince := seen_since_of_parsed (s := successOf result (parsePayload lib result payload)
    presence tracked raw) h.content hhash hnow
    fun q hq => hp.sha256_iff hmem (hpolls hq)
  constructor
  · refine ⟨hlimit.trans h.limit, (hcontent _).trans ?_⟩
    have hobserve : (w.step c lib result.feedName (.result driver plan result)).polls =
        w.polls ++ [p] := by
      simp [World.step, hpoll]
    have hpayloadSha256 : (w.state.monitor.feeds result.feedName).payloadSha256 = none :=
      congrArg ContentMemory.payloadSha256 h.content
    rw [contentOf_recordSuccess, hsince, hobserve, measure_concat, hpayloadSha256]
    simp only [expected, Option.map_some, observe_fst, ← hhash]
    rfl
  · rw [returnedFlags_of_writes hwrites, freshnessFlags_recordSuccess,
      payloadFrozen_mem_iff hfeed, hsince, h.limit, hnow]
    · rfl
    · intro hflag
      obtain ⟨e, -, he⟩ := Option.map_eq_some_iff.mp hflag
      exact failureFlag_ne e he

/-- A step that is no poll that parsed keeps the memory. -/
theorem Remembers.spared (h : Remembers c lib feed w) {input : Input}
    (hspared : Spared lib feed w input) (hpoll : parsedPoll lib feed input = none) :
    Remembers c lib feed (w.step c lib feed input) := by
  have hpolls : (w.step c lib feed input).polls = w.polls := by
    simp [World.step, hpoll]
  cases input with
  | workerError driver feed' =>
    have hmonitor : (w.step c lib feed (.workerError driver feed')).state.monitor =
        w.state.monitor := by
      cases driver <;> first | rfl | exact gap_monitor ..
    exact ⟨by rw [hmonitor, h.limit], by rw [hmonitor, hpolls, h.content]⟩
  | restart runId streamId feeds =>
    exact ⟨rfl, by rw [hpolls, ← h.content]; exact hspared⟩
  | result driver plan result =>
    obtain ⟨monitor, ⟨hlimit, hcontent, hwrites⟩, hmonitor⟩ :=
      handle_reports c lib w.state driver plan result
    have hkeep : monitor.frozenSeconds = w.state.monitor.frozenSeconds ∧
        contentOf (monitor.feeds feed) = contentOf (w.state.monitor.feeds feed) := by
      cases hpayload : result.payload with
      | none =>
        rw [hpayload] at hmonitor
        rw [hmonitor]
        exact ⟨rfl, contentOf_recordFailure ..⟩
      | some payload =>
        rw [hpayload] at hmonitor
        obtain ⟨presence, tracked, raw, rfl⟩ := hmonitor
        refine ⟨rfl, ?_⟩
        by_cases hname : result.feedName = feed
        · subst hname
          rcases hspared rfl payload hpayload with hok | hsame
          · -- it parsed, so it is a poll
            obtain ⟨message, hmessage⟩ := feed_of_ok hok
            simp [parsedPoll, hpayload, hok, hmessage] at hpoll
          · have hsince := seen_since_of_same (s := successOf result
              (parsePayload lib result payload) presence tracked raw) h.content hsame
            have hold : (w.state.monitor.feeds result.feedName).payloadUnchangedSince =
                (measure List.Perm w.polls).map Prod.snd :=
              congrArg ContentMemory.payloadUnchangedSince h.content
            rw [contentOf_recordSuccess, hsince, ← hold]
            exact congrArg (fun sha => ContentMemory.mk sha _ _) hsame.symm
        · exact contentOf_recordSuccess_of_ne _ (Ne.symm hname) _
    exact ⟨(hlimit.trans hkeep.1).trans h.limit,
      ((hcontent feed).trans hkeep.2).trans (by rw [hpolls, h.content])⟩

theorem Remembers.step {inputs : List Input} (h : Remembers c lib feed w) (hfeed : feed ≠ .alerts)
    (hp : Promises lib feed inputs) (hpolls : w.polls ⊆ inputs.filterMap (parsedPoll lib feed))
    {input : Input} (hinput : input ∈ inputs) (hspared : Spared lib feed w input) :
    Remembers c lib feed (w.step c lib feed input) := by
  cases hpoll : parsedPoll lib feed input with
  | none => exact h.spared hspared hpoll
  | some p => exact (h.parsed hfeed hp hpolls hinput hpoll).1

/-- A poll that parsed returns what the measurement with it says, and that is the claim about the
polls before it. -/
theorem Remembers.detects {inputs : List Input} (h : Remembers c lib feed w)
    (hfeed : feed ≠ .alerts) (hp : Promises lib feed inputs) (hpolls : w.polls ⊆ inputs.filterMap (parsedPoll lib feed))
    {input : Input} (hinput : input ∈ inputs)
    (hsorted : ((w.polls ++ (parsedPoll lib feed input).toList).map Prod.fst).Pairwise (· ≤ ·)) :
    Detects c lib feed w input := by
  intro p hpoll
  rw [hpoll, Option.toList_some] at hsorted
  rw [(h.parsed hfeed hp hpolls hinput hpoll).2]
  have hlimit : 0 < c.frozenPayloadSeconds :=
    CollectorSettings.pos_of_postInit c.valid "frozen_payload_seconds"
      (by simp [CollectorSettings.positive])
  -- with the poll itself, which is not old
  have hconcat : SteadySince List.Perm (fun t => c.frozenPayloadSeconds < p.1 - t)
      (w.polls ++ [p]) p.2 ↔
        SteadySince List.Perm (fun t => c.frozenPayloadSeconds < p.1 - t) w.polls p.2 := by
    rw [steadySince_concat, sub_self]
    exact ⟨fun h => h.2.resolve_left (not_lt.mpr hlimit.le),
      fun hold => ⟨List.Perm.refl _, Or.inr hold⟩⟩
  rw [← hconcat, steadySince_iff ⟨List.Perm.refl, List.Perm.symm, List.Perm.trans⟩
    (fun x y hxy hy => lt_of_lt_of_le hy (sub_le_sub_left hxy p.1)) hsorted, measure_concat]
  constructor
  · refine fun hold => ⟨p.2, (observe List.Perm (measure List.Perm w.polls) p).2, ?_,
      List.Perm.refl _, hold⟩
    rw [Option.some.injEq, Prod.ext_iff]
    exact ⟨observe_fst List.Perm _ p, rfl⟩
  · rintro ⟨b, since, hkept, -, hold⟩
    rw [Option.some.inj hkept]
    exact hold

end Step

/-! ### The whole run -/

section Run

variable {c : CollectorConfig} {lib : Libraries} {feed : Feed}

theorem World.polls_run (w : World) (inputs : List Input) :
    (w.run c lib feed inputs).polls = w.polls ++ inputs.filterMap (parsedPoll lib feed) := by
  induction inputs generalizing w with
  | nil => simp [World.run]
  | cons input inputs ih =>
    have hstep : (w.step c lib feed input).polls = w.polls ++ (parsedPoll lib feed input).toList :=
      rfl
    rw [World.run, List.foldl_cons, ← World.run, ih, hstep, List.append_assoc]
    cases hpoll : parsedPoll lib feed input <;> simp [hpoll]

theorem SparedAlong.head_of_append {w : World} {before after : List Input} {input : Input}
    (h : SparedAlong c lib feed w (before ++ input :: after)) :
    SparedAlong c lib feed w before := by
  induction before generalizing w with
  | nil => trivial
  | cons first before ih => exact ⟨h.1, ih h.2⟩

theorem Remembers.run {all : List Input} (hfeed : feed ≠ .alerts) (hp : Promises lib feed all)
    {w : World} (h : Remembers c lib feed w)
    (hpolls : w.polls ⊆ all.filterMap (parsedPoll lib feed)) {inputs : List Input}
    (hinputs : inputs ⊆ all) (hspared : SparedAlong c lib feed w inputs) :
    Remembers c lib feed (w.run c lib feed inputs) := by
  induction inputs generalizing w with
  | nil => exact h
  | cons input inputs ih =>
    have hinput : input ∈ all := hinputs List.mem_cons_self
    refine ih (h.step hfeed hp hpolls hinput hspared.1) ?_
      (fun i hi => hinputs (List.mem_cons_of_mem _ hi)) hspared.2
    intro q hq
    rcases List.mem_append.mp hq with hq | hq
    · exact hpolls hq
    · exact List.mem_filterMap.mpr ⟨input, hinput, Option.mem_toList.mp hq⟩

/-- The polls of a run are in the order of their times. -/
theorem sorted_polls {inputs : List Input} (h : (inputs.filterMap receivedAt).Pairwise (· ≤ ·)) :
    ((inputs.filterMap (parsedPoll lib feed)).map Prod.fst).Pairwise (· ≤ ·) := by
  have htime : ∀ {input : Input} {p : ℚ × List Bytes}, parsedPoll lib feed input = some p →
      receivedAt input = some p.1 := by
    intro input p hpoll
    obtain ⟨_, _, result, _, _, rfl, -, -, -, -, -, rfl⟩ := parsedPoll_spec hpoll
    rfl
  rw [List.pairwise_map, List.pairwise_filterMap]
  rw [List.pairwise_filterMap] at h
  refine h.imp ?_
  intro a b hle p hp q hq
  exact hle _ (htime hp) _ (htime hq)

end Run

/-- **Frozen content is detected**: over responses in the order of their times, with failed requests
and restarts in between, `payload_frozen` says of every poll that parsed that the content has been
the same for longer than the limit, if no response that does not parse replaces the digest that is
remembered, and every restart loads what the monitor remembers. -/
theorem frozenContent (c : CollectorConfig) (lib : Libraries) (runId streamId : String)
    (feed : Feed) (hfeed : feed ≠ .alerts) (inputs : List Input) (hp : Promises lib feed inputs)
    (hordered : (inputs.filterMap receivedAt).Pairwise (· ≤ ·))
    (hspared : SparedAlong c lib feed (World.start c runId streamId) inputs) :
    ∀ before input after, inputs = before ++ input :: after →
      Detects c lib feed (World.run c lib feed (World.start c runId streamId) before) input := by
  rintro before input after rfl
  have hstart : Remembers c lib feed (World.start c runId streamId) := ⟨rfl, rfl⟩
  have hrun := hstart.run hfeed hp (List.nil_subset _)
    (List.subset_append_left before (input :: after)) hspared.head_of_append
  have hpolls : (World.run c lib feed (World.start c runId streamId) before).polls =
      before.filterMap (parsedPoll lib feed) :=
    World.polls_run _ before
  refine hrun.detects hfeed hp ?_ (by simp) ?_
  · rw [hpolls, List.filterMap_append]
    exact List.subset_append_left _ _
  · have hsorted := @sorted_polls lib feed _ hordered
    rw [List.append_cons, List.filterMap_append, List.map_append] at hsorted
    have hprefix := (List.pairwise_append.mp hsorted).1
    rw [hpolls]
    rw [List.filterMap_append] at hprefix
    cases hpoll : parsedPoll lib feed input <;> simpa [hpoll] using hprefix

/-! ### A frozen trip -/

/-- A body that is no `FeedMessage`. -/
def garbage : Bytes := [0xff]

/-- The sample libraries, with the digest of that body. -/
def frozenLibraries : Libraries :=
  { sampleLibraries with
    sha256 := fun bytes =>
      if bytes = garbage then "a8100ae6aa1940d0b663bb31cd466142ebbdbd5187131b92d93818987832eb89"
      else sampleLibraries.sha256 bytes }

/-- A response of the loop of `run`. -/
def tripInput (pollId : String) (seconds : ℚ) (payload : Option Bytes) : Input :=
  .result .loop { freshId := pollId, monotonic := fun _ => seconds }
    (sampleResult pollId seconds payload)

theorem size_frozen (payload : Bytes) (message : FeedMessage)
    (h : frozenLibraries.parseFeed payload = .ok message) :
    ∀ e ∈ message.entities, e.serialized.length < 2 ^ 64 := by
  unfold frozenLibraries sampleLibraries at h
  simp only at h
  intro e he
  split_ifs at h
  · cases h
    cases he
  · cases h
    rw [List.mem_singleton.mp he]
    decide
  · cases h
    rw [List.mem_singleton.mp he]
    decide

/-- The trip does not change for 400 seconds, and the response in the middle does not parse. -/
def garbledInputs : List Input :=
  [tripInput "p1" 0 (some (tripMessage goodId)), tripInput "p2" 200 (some garbage)]

/-- The poll at the end. -/
def lastInput : Input := tripInput "p3" 400 (some (tripMessage goodId))

theorem garbled_unnoticed :
    (World.run defaultConfig frozenLibraries .tripupdates (World.start defaultConfig "run" "s")
      garbledInputs).polls = [(1767225600, [tripEntity goodId])] ∧
    Flag.payloadFrozen.name ∉ returnedFlags .tripupdates (handle defaultConfig frozenLibraries
      (World.run defaultConfig frozenLibraries .tripupdates (World.start defaultConfig "run" "s")
        garbledInputs).state lastInput).2 := by
  decide +kernel

/-- **One response that does not parse** starts the measurement anew. -/
theorem not_frozenContent :
    ¬ ∀ (c : CollectorConfig) (lib : Libraries) (runId streamId : String) (feed : Feed),
      feed ≠ .alerts → ∀ inputs : List Input, Promises lib feed inputs →
      (inputs.filterMap receivedAt).Pairwise (· ≤ ·) →
      ∀ before input after, inputs = before ++ input :: after →
        Detects c lib feed (World.run c lib feed (World.start c runId streamId) before) input := by
  intro h
  obtain ⟨hpolls, hflags⟩ := garbled_unnoticed
  have hdetects := h defaultConfig frozenLibraries "run" "s" .tripupdates (by decide)
    (garbledInputs ++ [lastInput]) ⟨size_frozen, by decide +kernel⟩ (by decide +kernel)
    garbledInputs lastInput [] rfl (1767226000, [tripEntity goodId]) (by decide +kernel)
  refine hflags (hdetects.mpr ?_)
  rw [hpolls]
  exact ⟨[], _, [], rfl, by decide +kernel, fun p hp => by
    rw [List.mem_singleton.mp hp]⟩

/-- A failed request and a restart in the middle. -/
def interruptedInputs : List Input :=
  [tripInput "p1" 0 (some (tripMessage goodId)), tripInput "p2" 200 none,
    .restart "run2" "s2" fun _ => {}]

theorem spared_trip {w : World} {pollId : String} {seconds : ℚ}
    (h : (parsePayload frozenLibraries (sampleResult pollId seconds (some (tripMessage goodId)))
      (tripMessage goodId)).ok = true) :
    Spared frozenLibraries .tripupdates w
      (tripInput pollId seconds (some (tripMessage goodId))) := by
  intro _ payload hpayload
  obtain rfl := Option.some.inj hpayload
  exact Or.inl h

theorem frozenContent_interrupted :
    Detects defaultConfig frozenLibraries .tripupdates
      (World.run defaultConfig frozenLibraries .tripupdates (World.start defaultConfig "run" "s")
        interruptedInputs) lastInput := by
  refine frozenContent defaultConfig frozenLibraries "run" "s" .tripupdates (by decide)
    (interruptedInputs ++ [lastInput]) ⟨size_frozen, by decide +kernel⟩ (by decide +kernel)
    ⟨spared_trip (by decide +kernel), fun _ payload hpayload => ?_, ?_,
      spared_trip (by decide +kernel), trivial⟩ interruptedInputs lastInput [] rfl
  · cases hpayload
  · unfold Spared
    decide +kernel

end BkkCollector.Collector.FrozenContent
