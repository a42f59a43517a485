import BkkCollector.Collector.Evidence
import BkkCollector.Realtime.PresenceEncoding

/-! # Presence deltas and gaps

A delta record says what changed since the response before it, so it may only follow an observation
of that response. The collector invalidates its presence instance at every gap it notices:
responses without a payload, worker errors, responses that do not parse, and processing that raises;
`observe` does the same in its guards and around its append.

* `noBridge`: in every run without an identity JSON cannot hold, and without a worker error under
  `poll_once`, no delta bridges a gap.
* `not_noBridge_brokenId`: an identity JSON cannot hold raises outside of both.
-/

namespace BkkCollector.Collector.PresenceGaps

open BkkCollector.Python.Objects BkkCollector.Config BkkCollector.Monitoring
open BkkCollector.Realtime.Dedup BkkCollector.Realtime.DedupFlow BkkCollector.Realtime.PresenceLog
open BkkCollector.Realtime.PresenceReplay BkkCollector.Realtime.PresenceEncoding
open BkkCollector.Collector.ProcessResult BkkCollector.Collector.Outcomes

/-! ### Runs -/

/-- Where `process_result` is called: the loop of `run`, its shutdown drain, and `poll_once`. -/
inductive Driver where
  | loop
  | drain
  | pollOnce
  deriving DecidableEq

/-- What a collector is handed. -/
inductive Input where
  | result (driver : Driver) (plan : Plan) (result : FetchResult)
  | workerError (driver : Driver) (feed : Feed)
  | restart (runId streamId : String) (feeds : Feed → FeedHealth)

/-- Handling an input. Only the loop of `run` invalidates presence when the processing raises, and
`poll_once` does not at a worker error. -/
def handle (c : CollectorConfig) (lib : Libraries) (s : CollectorState) :
    Input → CollectorState × Trace
  | .result driver plan result =>
    match process c lib plan s result, driver with
    | ((s, .error _), trace), .loop => (s.gap result.feedName "unexpected_processing_gap", trace)
    | ((s, _), trace), _ => (s, trace)
  | .workerError .pollOnce _ => (s, [])
  | .workerError _ feed => (s.gap feed "http_observation_gap", [])
  | .restart runId streamId feeds => (CollectorState.start c runId streamId feeds, [])

/-- What a TripUpdates result came to: an observation that returned, with its record; a record in
the log whose append raised; or neither. -/
inductive Outcome where
  | observed (date : String) (record : Record)
  | unconfirmed (date : String) (record : Record)
  | gap

/-- The record that came into the log. -/
def Outcome.record : Outcome → Option (String × Record)
  | .observed date record | .unconfirmed date record => some (date, record)
  | .gap => none

/-- The date of an observation that returned. -/
def Outcome.observedOn : Outcome → Option String
  | .observed date _ => some date
  | .unconfirmed .. | .gap => none

/-- The outcome of the presence events of a result. -/
def outcomeOf : Trace → Outcome
  | .presence date record .written :: _ => .observed date record
  | .presence date record (.durable _) :: _ => .unconfirmed date record
  | _ => .gap

/-- Does an input concern TripUpdates; a restart is a gap. -/
def Input.concerns : Input → Bool
  | .result _ _ r => r.feedName = .tripupdates
  | .workerError _ feed => feed = .tripupdates
  | .restart .. => true

/-- The fresh stream id an input brings along. -/
def Input.freshIds : Input → List String
  | .result _ plan _ => [plan.freshId]
  | _ => []

/-- A run: the collector, the outcomes of the TripUpdates results so far, and the ids drawn. -/
structure World where
  state : CollectorState
  history : List Outcome := []
  drawn : List String := []

/-- One input. -/
def World.step (c : CollectorConfig) (lib : Libraries) (w : World) (input : Input) : World :=
  let (state, trace) := handle c lib w.state input
  { state
    history := w.history ++ if input.concerns then [outcomeOf (presenceEvents trace)] else []
    drawn := w.drawn ++ input.freshIds }

/-! ### Bridges -/

/-- A record that starts a stream of its own. -/
structure StartsAnew (before : List Outcome) (record : Record) : Prop where
  baseline : Baseline record
  stream : ∀ o ∈ before, ∀ date earlier, o.record = some (date, earlier) →
    record.streamId ≠ earlier.streamId

/-- A delta on the date of the observation right before it. -/
structure Continues (before : List Outcome) (date : String) (record : Record) : Prop where
  delta : record.kind = .delta
  previous : before.getLast?.bind Outcome.observedOn = some date

/-- Every record is a delta to the observation before it, or starts a stream. -/
def Unbridged (history : List Outcome) : Prop :=
  ∀ before o after date record, history = before ++ o :: after → o.record = some (date, record) →
    Continues before date record ∨ StartsAnew before record

/-- **No delta bridges a gap**: the result before a delta is an observation that returned on the
same date, and the next record after a result that is none starts a stream. -/
structure NoBridge (history : List Outcome) : Prop where
  delta : ∀ before o after date record, history = before ++ o :: after →
    o.record = some (date, record) → record.kind = .delta →
    ∃ previous, before.getLast? = some previous ∧ previous.observedOn = some date
  anew : ∀ before failed between o after date record,
    history = before ++ failed :: between ++ o :: after → failed.observedOn = none →
    (∀ o ∈ between, o.record = none) → o.record = some (date, record) →
    StartsAnew (before ++ failed :: between) record

theorem observedOn_of_record_none {o : Outcome} (h : o.record = none) : o.observedOn = none := by
  cases o with
  | gap => rfl
  | _ => cases h

theorem Unbridged.pairs {history : List Outcome} (h : Unbridged history) : NoBridge history where
  delta before o after date record hsplit ho hkind := by
    rcases h before o after date record hsplit ho with hc | hs
    · exact Option.bind_eq_some_iff.mp hc.previous
    · rw [hs.baseline.kind] at hkind
      cases hkind
  anew before failed between o after date record hsplit hfailed hbetween ho := by
    rcases h (before ++ failed :: between) o after date record hsplit ho with hc | hs
    · -- the result before the record is the failed one, or one of those behind it
      obtain ⟨previous, hlast, hobserved⟩ := Option.bind_eq_some_iff.mp hc.previous
      have hmem : previous ∈ failed :: between := by
        rw [List.getLast?_append_of_ne_nil _ (List.cons_ne_nil failed between)] at hlast
        exact List.mem_of_getLast? hlast
      rcases List.mem_cons.mp hmem with rfl | hmem
      · rw [hfailed] at hobserved
        cases hobserved
      · rw [observedOn_of_record_none (hbetween _ hmem)] at hobserved
        cases hobserved
    · exact hs

/-! ### The invariant -/

/-- The condition on an input: no TripUpdates response has an identity JSON cannot hold while the
instance holds a membership for its date, and no worker error of TripUpdates comes up under
`poll_once`. -/
def Input.KeepsTrack (lib : Libraries) (s : CollectorState) : Input → Prop
  | .result _ _ r => r.feedName = .tripupdates → ∀ payload message,
    r.payload = some payload → (parsePayload lib r payload).ok = true →
    (parsePayload lib r payload).feed = some message →
    Accepted (parsePayload lib r payload).rows (parseContext r message) →
    (s.presence.switchDate (lib.utcDate r.responseReceivedTs)).members ≠ none →
    RowsPlain (parsePayload lib r payload).rows
  | .workerError driver feed => driver = .pollOnce → feed ≠ .tripupdates
  | .restart .. => True

/-- What the instance holds between two inputs: a membership is that of the last result, observed on
the instance's date. -/
structure Held (p : TripUpdatePresence) (history : List Outcome) (drawn : List String) : Prop where
  encodable : Encodable (p.members.getD ∅)
  last : p.members ≠ none → ∃ date, p.date = some date ∧
    history.getLast?.bind Outcome.observedOn = some date
  stream : p.members ≠ none → p.streamId ∈ drawn

/-- The invariant of a run. -/
structure Good (w : World) : Prop where
  held : Held w.state.presence w.history w.drawn
  drawn : ∀ o ∈ w.history, ∀ date record, o.record = some (date, record) →
    record.streamId ∈ w.drawn
  unbridged : Unbridged w.history

theorem held_of_members_none {p : TripUpdatePresence} (hp : p.members = none)
    (history : List Outcome) (drawn : List String) : Held p history drawn where
  encodable := by rw [hp]; exact encodable_empty
  last h := absurd hp h
  stream h := absurd hp h

/-- The outcome of a result, and the instance after it. -/
structure Recorded (w : World) (p : TripUpdatePresence) (o : Outcome) (drawn : List String) :
    Prop where
  held : Held p (w.history ++ [o]) drawn
  drawn : ∀ date record, o.record = some (date, record) → record.streamId ∈ drawn
  unbridged : ∀ date record, o.record = some (date, record) →
    Continues w.history date record ∨ StartsAnew w.history record

section step

variable {w : World} {p : TripUpdatePresence} {o : Outcome} {drawn : List String}

/-- A result without a record, after which the instance holds nothing. -/
theorem recorded_of_members_none (hp : p.members = none) (ho : o.record = none) :
    Recorded w p o drawn where
  held := held_of_members_none hp _ _
  drawn date record h := by rw [ho] at h; cases h
  unbridged date record h := by rw [ho] at h; cases h

theorem Recorded.invalidate (h : Recorded w p o drawn) (reason : String) :
    Recorded w (p.invalidate reason) o drawn :=
  { h with held := held_of_members_none rfl _ _ }

/-- **A result**: its record goes with the history. -/
theorem Good.snoc (hw : Good w) (h : Recorded w p o drawn) (hdrawn : w.drawn ⊆ drawn)
    {s : CollectorState} (hs : s.presence = p) : Good ⟨s, w.history ++ [o], drawn⟩ where
  held := hs ▸ h.held
  drawn o' ho' date record hrecord := by
    rcases List.mem_append.mp ho' with ho' | ho'
    · exact hdrawn (hw.drawn o' ho' date record hrecord)
    · rw [List.mem_singleton.mp ho'] at hrecord
      exact h.drawn date record hrecord
  unbridged before o' after date record hsplit hrecord := by
    rcases List.eq_nil_or_concat after with rfl | ⟨after, last, rfl⟩
    · obtain ⟨rfl, ho⟩ := List.append_inj' hsplit rfl
      cases ho
      exact h.unbridged date record hrecord
    · have hsplit' : w.history ++ [o] = (before ++ o' :: after) ++ [last] := by
        simpa using hsplit
      obtain ⟨hhistory, -⟩ := List.append_inj' hsplit' rfl
      exact hw.unbridged before o' after date record hhistory hrecord

/-- A result of another feed. -/
theorem Good.other (hw : Good w) (hdrawn : w.drawn ⊆ drawn) {s : CollectorState}
    (hs : s.presence = w.state.presence) : Good ⟨s, w.history, drawn⟩ where
  held := hs ▸ { hw.held with stream := fun h => hdrawn (hw.held.stream h) }
  drawn o ho date record hrecord := hdrawn (hw.drawn o ho date record hrecord)
  unbridged := hw.unbridged

/-- The record of an observation: a delta while the instance holds the last result, else a baseline
of the fresh stream. -/
theorem Good.record (hw : Good w) {json : Json} {date freshId : String} {current : Observation}
    {context : Context} {record : Record} (hfresh : freshId ∉ w.drawn)
    (h : (w.state.presence.switchDate date).encode json current context freshId = .ok record) :
    record.streamId ∈ w.drawn ++ [freshId] ∧
      (Continues w.history date record ∨ StartsAnew w.history record) := by
  by_cases hmembers : (w.state.presence.switchDate date).members = none
  · obtain ⟨hbaseline, hstream⟩ := encode_baseline hmembers h
    rw [hstream]
    refine ⟨by simp, Or.inr ⟨hbaseline, fun o ho earlierDate earlier hearlier heq => ?_⟩⟩
    exact hfresh (hstream ▸ heq ▸ hw.drawn o ho earlierDate earlier hearlier)
  · obtain ⟨hkind, hstream⟩ := encode_delta hmembers h
    obtain ⟨hsame, hdate⟩ := switchDate_of_members hmembers
    rw [hsame] at hmembers hstream
    obtain ⟨lastDate, hlastDate, hlast⟩ := hw.held.last hmembers
    cases hdate.symm.trans hlastDate
    exact ⟨hstream ▸ List.mem_append_left _ (hw.held.stream hmembers), Or.inl ⟨hkind, hlast⟩⟩

/-- **The presence block** records a baseline of a fresh stream, or a delta to the last result. -/
theorem Good.presenceStep (hw : Good w) {lib : Libraries} {plan : Plan} {result : FetchResult}
    {payload : Bytes} {driver : Driver} (hfeed : result.feedName = .tripupdates)
    (hpayload : result.payload = some payload)
    (hkeeps : (Input.result driver plan result).KeepsTrack lib w.state)
    (hfresh : plan.freshId ∉ w.drawn) {ok : Bool} {evs : Trace}
    (h : PresenceStep lib plan result (parsePayload lib result payload) w.state.presence p ok evs) :
    Recorded w p (outcomeOf evs) (w.drawn ++ [plan.freshId]) := by
  cases h with
  | other hother => exact absurd hfeed hother
  | unparsed => exact recorded_of_members_none rfl rfl
  | refused _ hparsed hmessage hprepare =>
    exact recorded_of_members_none (prepare_refused hw.held.encodable hprepare fun haccepted hm =>
      hkeeps hfeed payload _ hpayload hparsed hmessage haccepted hm) rfl
  | @appended message p' record current _ hparsed hmessage hprepare =>
    obtain ⟨hp', hcurrent, hencode⟩ := prepare_encoded hw.held.encodable hprepare
    subst hp'
    obtain ⟨hstream, hrecord⟩ := hw.record hfresh hencode
    have hdate := switchDate_date w.state.presence (lib.utcDate result.responseReceivedTs)
    cases plan.presence with
    | written =>
      exact
        { held :=
            { encodable := hcurrent
              last := fun _ => ⟨_, hdate, by rw [List.getLast?_concat]; rfl⟩
              stream := fun _ => hstream }
          drawn := fun _ _ h => by cases h; exact hstream
          unbridged := fun _ _ h => by cases h; exact hrecord }
    | lost e => exact recorded_of_members_none rfl rfl
    | durable e =>
      exact
        { held := held_of_members_none rfl _ _
          drawn := fun _ _ h => by cases h; exact hstream
          unbridged := fun _ _ h => by cases h; exact hrecord }

theorem gap_presence (s : CollectorState) {feed : Feed} (hfeed : feed = .tripupdates)
    (reason : String) : (s.gap feed reason).presence = s.presence.invalidate reason := by
  rw [CollectorState.gap, if_pos hfeed]

theorem gap_other (s : CollectorState) {feed : Feed} (hfeed : feed ≠ .tripupdates)
    (reason : String) : s.gap feed reason = s := if_neg hfeed

/-- Handling a response: the processing, and perhaps the gap of an exception. -/
theorem handle_result (c : CollectorConfig) (lib : Libraries) (s : CollectorState) (driver : Driver)
    (plan : Plan) (result : FetchResult) :
    (handle c lib s (.result driver plan result)).2 = (process c lib plan s result).2 ∧
    ((handle c lib s (.result driver plan result)).1 = (process c lib plan s result).1.1 ∨
      (handle c lib s (.result driver plan result)).1 =
        (process c lib plan s result).1.1.gap result.feedName "unexpected_processing_gap") := by
  simp only [handle]
  rcases hp : process c lib plan s result with ⟨⟨s', e | u⟩, trace⟩
  · cases driver with
    | loop => exact ⟨rfl, Or.inr rfl⟩
    | _ => exact ⟨rfl, Or.inl rfl⟩
  · cases driver <;> exact ⟨rfl, Or.inl rfl⟩

/-- A response leaves a record of its observation, or nothing. -/
theorem Good.process (hw : Good w) {c : CollectorConfig} {lib : Libraries} {driver : Driver}
    {plan : Plan} {result : FetchResult} (hfeed : result.feedName = .tripupdates)
    (hkeeps : (Input.result driver plan result).KeepsTrack lib w.state)
    (hfresh : plan.freshId ∉ w.drawn) :
    Recorded w (Outcomes.process c lib plan w.state result).1.1.presence
      (outcomeOf (presenceEvents (Outcomes.process c lib plan w.state result).2))
      (w.drawn ++ [plan.freshId]) := by
  cases hpayload : result.payload with
  | none =>
    obtain ⟨hpresence, hevents⟩ := process_presence_none c lib plan w.state result hpayload
    rw [hpresence, hevents, gap_presence _ hfeed]
    exact recorded_of_members_none rfl rfl
  | some payload =>
    obtain ⟨ok, hstep⟩ := process_presence_some c lib plan w.state result payload hpayload
    exact hw.presenceStep hfeed hpayload hkeeps hfresh hstep

/-- A response of another feed leaves the instance alone. -/
theorem process_other (c : CollectorConfig) (lib : Libraries) (plan : Plan) (s : CollectorState)
    {result : FetchResult} (hfeed : result.feedName ≠ .tripupdates) :
    (process c lib plan s result).1.1.presence = s.presence := by
  cases hpayload : result.payload with
  | none =>
    rw [(process_presence_none c lib plan s result hpayload).1, gap_other s hfeed]
  | some payload =>
    obtain ⟨ok, hstep⟩ := process_presence_some c lib plan s result payload hpayload
    revert hstep
    generalize (process c lib plan s result).1.1.presence = p
    generalize presenceEvents (process c lib plan s result).2 = evs
    intro hstep
    cases hstep with
    | other => rfl
    | unparsed h => exact absurd h hfeed
    | refused h => exact absurd h hfeed
    | appended h => exact absurd h hfeed

/-- **One input.** -/
theorem Good.step (hw : Good w) (c : CollectorConfig) {lib : Libraries} {input : Input}
    (hkeeps : input.KeepsTrack lib w.state) (hfresh : ∀ id ∈ input.freshIds, id ∉ w.drawn) :
    Good (w.step c lib input) := by
  have hdrawn : w.drawn ⊆ w.drawn ++ input.freshIds := List.subset_append_left _ _
  cases input with
  | result driver plan r =>
    obtain ⟨htrace, hstate⟩ := handle_result c lib w.state driver plan r
    by_cases hfeed : r.feedName = .tripupdates
    · have hrecorded := hw.process (c := c) hfeed hkeeps (hfresh _ (List.mem_singleton_self _))
      simp only [World.step, Input.concerns, hfeed, decide_true, if_true, htrace]
      rcases hstate with hstate | hstate
      · exact hw.snoc hrecorded hdrawn (congrArg CollectorState.presence hstate)
      · exact hw.snoc (hrecorded.invalidate _) hdrawn
          ((congrArg CollectorState.presence hstate).trans (gap_presence _ hfeed _))
    · simp only [World.step, Input.concerns, hfeed, decide_false, Bool.false_eq_true, if_false,
        List.append_nil]
      refine hw.other hdrawn ?_
      rcases hstate with hstate | hstate
      · rw [hstate, process_other c lib plan w.state hfeed]
      · rw [hstate, gap_other _ hfeed, process_other c lib plan w.state hfeed]
  | workerError driver feed =>
    by_cases hfeed : feed = .tripupdates
    · have hdriver : driver ≠ .pollOnce := fun h => hkeeps h hfeed
      simp only [World.step, Input.concerns, hfeed, decide_true, if_true]
      have hpresence := gap_presence w.state rfl "http_observation_gap"
      cases driver with
      | pollOnce => exact absurd rfl hdriver
      | _ => exact hw.snoc (recorded_of_members_none rfl rfl) hdrawn hpresence
    · simp only [World.step, Input.concerns, hfeed, decide_false, Bool.false_eq_true, if_false,
        List.append_nil]
      refine hw.other hdrawn ?_
      cases driver with
      | pollOnce => rfl
      | _ => exact congrArg CollectorState.presence (gap_other _ hfeed _)
  | restart runId streamId feeds =>
    exact hw.snoc (recorded_of_members_none rfl rfl) hdrawn rfl

end step

/-! ### Whole runs -/

/-- A new collector. -/
def World.start (c : CollectorConfig) (runId streamId : String) (feeds : Feed → FeedHealth) :
    World where
  state := CollectorState.start c runId streamId feeds

/-- A run. -/
def World.run (c : CollectorConfig) (lib : Libraries) (w : World) (inputs : List Input) : World :=
  inputs.foldl (World.step c lib) w

/-- The condition, along a run. -/
def KeepsTrackAlong (c : CollectorConfig) (lib : Libraries) : World → List Input → Prop
  | _, [] => True
  | w, input :: inputs =>
    input.KeepsTrack lib w.state ∧ KeepsTrackAlong c lib (w.step c lib input) inputs

theorem good_start (c : CollectorConfig) (runId streamId : String) (feeds : Feed → FeedHealth) :
    Good (World.start c runId streamId feeds) where
  held := held_of_members_none rfl _ _
  drawn o ho := absurd ho List.not_mem_nil
  unbridged before o after date record hsplit := by
    cases before <;> cases hsplit

theorem Good.run {w : World} (hw : Good w) (c : CollectorConfig) {lib : Libraries}
    {inputs : List Input} (hkeeps : KeepsTrackAlong c lib w inputs)
    (hfresh : (w.drawn ++ inputs.flatMap Input.freshIds).Nodup) : Good (w.run c lib inputs) := by
  induction inputs generalizing w with
  | nil => exact hw
  | cons input inputs ih =>
    have hnew : ∀ id ∈ input.freshIds, id ∉ w.drawn := fun id hid hdrawn =>
      (List.nodup_append.mp hfresh).2.2 id hdrawn id (List.mem_flatMap.mpr
        ⟨input, List.mem_cons_self, hid⟩) rfl
    refine ih (hw.step c hkeeps.1 hnew) hkeeps.2 ?_
    rw [List.flatMap_cons, ← List.append_assoc] at hfresh
    exact hfresh

/-- **Presence deltas never bridge a gap**, in every run whose inputs keep track. -/
theorem noBridge (c : CollectorConfig) (lib : Libraries) (runId streamId : String)
    (feeds : Feed → FeedHealth) (inputs : List Input)
    (hfresh : (inputs.flatMap Input.freshIds).Nodup)
    (hkeeps : KeepsTrackAlong c lib (World.start c runId streamId feeds) inputs) :
    NoBridge ((World.start c runId streamId feeds).run c lib inputs).history :=
  ((good_start c runId streamId feeds).run c hkeeps hfresh).unbridged.pairs

/-- Rows with identities JSON can hold are enough. -/
theorem keepsTrack_of_rowsPlain {lib : Libraries} {s : CollectorState} {driver : Driver}
    {plan : Plan} {result : FetchResult}
    (h : ∀ payload ∈ result.payload, RowsPlain (parsePayload lib result payload).rows) :
    (Input.result driver plan result).KeepsTrack lib s :=
  fun _ payload _ hpayload _ _ _ _ => h payload hpayload

/-- A TripUpdates response in the loop of `run`. -/
def sampleInput (freshId pollId : String) (seconds : ℚ) (payload : Option Bytes) : Input :=
  .result .loop { freshId, monotonic := fun _ => seconds } (sampleResult pollId seconds payload)

/-- An observation, a failed request, and two observations: a baseline, and a delta to it. -/
theorem noBridge_failedRequest :
    NoBridge ((World.start defaultConfig "run" "s" fun _ => {}).run defaultConfig sampleLibraries
      [sampleInput "a" "p1" 0 (some (tripMessage goodId)), sampleInput "b" "p2" 10 none,
        sampleInput "c" "p3" 20 (some (tripMessage goodId)),
        sampleInput "d" "p4" 30 (some emptyMessage)]).history := by
  refine noBridge defaultConfig sampleLibraries "run" "s" (fun _ => {}) _ (by decide) ?_
  refine ⟨?_, ?_, ?_, ?_, trivial⟩
  all_goals exact keepsTrack_of_rowsPlain (by decide +kernel)

/-- **A bridge**: an observation of an id that is not UTF-8 raises, and the next response is
encoded as a delta to the one before it. -/
theorem not_noBridge_brokenId :
    ¬ ∀ (c : CollectorConfig) (lib : Libraries) (runId streamId : String)
      (feeds : Feed → FeedHealth) (inputs : List Input),
      (inputs.flatMap Input.freshIds).Nodup →
      NoBridge ((World.start c runId streamId feeds).run c lib inputs).history := by
  intro h
  have hbridge := h defaultConfig sampleLibraries "run" "s" (fun _ => {})
    [sampleInput "a" "p1" 0 (some (tripMessage goodId)),
      sampleInput "b" "p2" 10 (some (tripMessage brokenId)),
      sampleInput "c" "p3" 20 (some emptyMessage)] (by decide)
  have hhistory : (((World.start defaultConfig "run" "s" fun _ => {}).run defaultConfig
      sampleLibraries [sampleInput "a" "p1" 0 (some (tripMessage goodId)),
        sampleInput "b" "p2" 10 (some (tripMessage brokenId)),
        sampleInput "c" "p3" 20 (some emptyMessage)]).history.map fun o =>
      (o.observedOn, o.record.map (·.2.kind))) =
      [(some "2026-01-01", some .baseline), (none, none), (some "2026-01-01", some .delta)] := by
    decide +kernel
  revert hbridge hhistory
  generalize ((World.start defaultConfig "run" "s" fun _ => {}).run defaultConfig sampleLibraries
    [sampleInput "a" "p1" 0 (some (tripMessage goodId)),
      sampleInput "b" "p2" 10 (some (tripMessage brokenId)),
      sampleInput "c" "p3" 20 (some emptyMessage)]).history = history
  intro hbridge hhistory
  simp only [List.map_eq_cons_iff, List.map_eq_nil_iff, Prod.mk.injEq] at hhistory
  obtain ⟨o1, _, rfl, -, o2, _, rfl, ⟨hgap, -⟩, o3, _, rfl, ⟨-, hdelta⟩, rfl⟩ := hhistory
  obtain ⟨⟨date, record⟩, hrecord, hkind⟩ := Option.map_eq_some_iff.mp hdelta
  obtain ⟨previous, hprevious, hobserved⟩ :=
    hbridge.delta [o1, o2] o3 [] date record rfl hrecord hkind
  obtain rfl : o2 = previous := Option.some.inj hprevious
  rw [hgap] at hobserved
  cases hobserved

end BkkCollector.Collector.PresenceGaps
