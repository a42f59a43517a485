import BkkCollector.Collector.RawArchive
import BkkCollector.Monitoring
import BkkCollector.Realtime.Dedup
import BkkCollector.Realtime.PresenceLog

/-! # Processing a response

`Collector.process_result`: raw archival, parsing, the auxiliary state, presence, change tracking
and staging, the raw fallback, health and the poll journal, in the order of the source. The storage
operations are a parameter; each returns its exception as a value, and an exception that the source
lets through ends the processing. -/

namespace BkkCollector.Collector.ProcessResult

open BkkCollector.Python.Objects BkkCollector.Config BkkCollector.Monitoring
open BkkCollector.Realtime.Dedup BkkCollector.Realtime.PresenceLog
open BkkCollector.Collector.RawArchive

/-! ### Responses -/

/-- A byte string. -/
abbrev Bytes := List UInt8

/-- `FetchResult`. -/
structure FetchResult where
  feedName : Feed
  pollId : String
  requestStartedAt : String
  responseReceivedAt : String
  responseReceivedTs : ℚ
  httpStatus : Option ℕ
  payload : Option Bytes
  error : Option String

/-- What the collector looks at in a feed entity. `payloads` are the message fields it has. -/
structure Entity where
  isDeleted : Bool
  payloads : List String
  timestamp : Option ℤ
  serialized : Bytes
  deterministic : Bytes

/-- A parsed `FeedMessage`. -/
structure FeedMessage where
  headerTimestamp : Option ℕ
  incrementality : ℤ
  entities : List Entity

/-- The message field a feed's entities must have. -/
def expectedPayload : Feed → String
  | .vehiclepositions => "vehicle"
  | .tripupdates => "trip_update"
  | .alerts => "alert"

/-- The entities that are neither rows nor presence. -/
def auxiliaryPayloads : List String := ["shape", "stop", "trip_modifications"]

/-- `_validate_feed_entities`. -/
def validateFeedEntities (feed : Feed) (message : FeedMessage) : Except PyError Unit :=
  if message.entities.any fun e => !e.isDeleted &&
      !(e.payloads.dedup.length == 1 &&
        e.payloads.all fun p => p = expectedPayload feed ∨ p ∈ auxiliaryPayloads) then
    .error ⟨.valueError,
      feed.name ++ " response contains an unexpected or invalid entity type"⟩
  else .ok ()

/-- `len(value).to_bytes(8, "big")`, of a length below `2 ^ 64`. -/
def lengthPrefix (n : ℕ) : Bytes :=
  (List.range 8).reverse.map fun i => UInt8.ofNat (n / 256 ^ i)

/-- `sorted` byte strings, each behind its length: what the content digests are made of. -/
def digestInput (values : List Bytes) : Bytes :=
  (values.insertionSort (· ≤ ·)).flatMap fun v => lengthPrefix v.length ++ v

/-- `entity_timestamp_range`, the maximum. -/
def maxEntityTimestamp (message : FeedMessage) : Option ℤ :=
  (message.entities.filterMap Entity.timestamp).max?

/-- The code outside this model: protobuf parsing, the row parsers, SHA-256, `json.dumps`,
`_redact_error` and the UTC date of a timestamp. -/
structure Libraries where
  parseFeed : Bytes → Except PyError FeedMessage
  parsers : Feed → FeedMessage → Context → Except PyError (List Row)
  sha256 : Bytes → String
  json : Json
  redact : PyError → String
  utcDate : ℚ → String

/-! ### State and operations -/

/-- What the collector remembers between responses. -/
structure CollectorState where
  runMetadataWritten : Bool := false
  presence : TripUpdatePresence
  monitor : HealthMonitor
  raw : RawMemory := {}
  archivedTripAuxiliarySha256 : Option String := none
  trackers : Feed → Option ChangeTracker

/-- What `Collector.__init__` sets up; `feeds` is the health state it loads. -/
def CollectorState.start (c : CollectorConfig) (runId streamId : String)
    (feeds : Feed → FeedHealth) : CollectorState where
  presence := TripUpdatePresence.start runId streamId
  monitor :=
    { staleSeconds := c.feedStaleSeconds
      absentSeconds := c.feedAbsentSeconds
      frozenSeconds := c.frozenPayloadSeconds
      alertsFrozenSeconds := c.alertsFrozenPayloadSeconds
      feeds }
  trackers := makeTracker c

/-- `if feed_name == "tripupdates": self.presence.invalidate(reason)`. -/
def CollectorState.gap (s : CollectorState) (feed : Feed) (reason : String) : CollectorState :=
  if feed = .tripupdates then { s with presence := s.presence.invalidate reason } else s

/-- A poll journal event. -/
structure JournalEvent where
  pollId : String
  feed : Feed
  success : Bool
  error : Option String
  presenceRequired : Bool := false
  presenceOk : Option Bool := none
  presenceError : Option String := none
  presenceDetails : Option Details := none
  parseOk : Bool := false
  parseError : Option String := none
  changeTrackingOk : Bool := false
  changeTrackingError : Option String := none
  changeTrackingFailureFlag : Option Flag := none
  spoolError : Option String := none
  payloadSha256 : Option String := none
  entityContentSha256 : Option String := none
  freshnessFlags : List String := []
  rawDue : Bool := false
  rawArchived : Bool := false
  rawOk : Bool := false
  rawPath : Option String := none
  rawError : Option String := none
  tripAuxiliarySha256 : Option String := none
  tripAuxiliaryStateChanged : Option Bool := none
  parsedRows : ℕ := 0
  selectedRows : ℕ := 0
  emittedRows : ℕ := 0
  spoolOk : Bool := false
  spoolPath : Option String := none

/-- The storage operations of `process_result`. -/
structure StorageOps (m : Type → Type) where
  raw : RawOps m
  writeRunMetadata : m (Except PyError Unit)
  freshId : m String
  appendPresence : String → Record → m (Except PyError Unit)
  stage : Feed → String → String → List Row → m (Except PyError (Option String))
  saveHealth : HealthMonitor → m (Except PyError Unit)
  appendJournal : Feed → String → JournalEvent → m (Except PyError Unit)

variable {m : Type → Type} [Monad m]

/-! ### The steps -/

/-- What parsing a payload came to. -/
structure Parsed where
  feed : Option FeedMessage := none
  contentHash : String
  rows : List Row := []
  error : Option PyError := none

/-- `parse_ok`. -/
def Parsed.ok (p : Parsed) : Bool := p.error.isNone

/-- The context handed to the parser. -/
def parseContext (result : FetchResult) (message : FeedMessage) : Context where
  pollId := result.pollId
  requestStartedAt := result.requestStartedAt
  responseReceivedAt := result.responseReceivedAt
  feedHeaderTimestamp := message.headerTimestamp
  feedIncrementality := some message.incrementality

/-- The parsing block. -/
def parsePayload (lib : Libraries) (result : FetchResult) (payload : Bytes) : Parsed :=
  match lib.parseFeed payload with
  | .error e => { contentHash := lib.sha256 payload, error := some e }
  | .ok message =>
    match validateFeedEntities result.feedName message with
    | .error e => { feed := some message, contentHash := lib.sha256 payload, error := some e }
    | .ok () =>
      let contentHash := lib.sha256 (digestInput (message.entities.map Entity.serialized))
      match lib.parsers result.feedName message (parseContext result message) with
      | .error e => { feed := some message, contentHash, error := some e }
      | .ok rows => { feed := some message, contentHash, rows }

/-- The digest of the auxiliary entities of a TripUpdates response. -/
def auxiliarySha256 (lib : Libraries) (result : FetchResult) (parsed : Parsed) : Option String :=
  if result.feedName = .tripupdates ∧ parsed.ok then
    parsed.feed.map fun message => lib.sha256 (digestInput
      ((message.entities.filter fun e => e.payloads.any (· ∈ auxiliaryPayloads)).map
        Entity.deterministic))
  else none

/-- Has the auxiliary state changed since it was last archived. -/
def auxiliaryChanged (lib : Libraries) (s : CollectorState) (result : FetchResult)
    (parsed : Parsed) : Bool :=
  (auxiliarySha256 lib result parsed).any fun digest =>
    s.archivedTripAuxiliarySha256 ≠ some digest

/-- What the presence block came to: `presence_ok`, `presence_details` and `presence_error`. -/
structure PresenceOutcome where
  ok : Bool
  details : Option Details := none
  error : Option PyError := none

/-- The presence block. -/
def observePresence (lib : Libraries) (ops : StorageOps m) (s : CollectorState)
    (result : FetchResult) (parsed : Parsed) : m (CollectorState × PresenceOutcome) :=
  if result.feedName = .tripupdates then
    match parsed.error, parsed.feed with
    | none, some message => do
      let freshId ← ops.freshId
      let (presence, outcome) ← s.presence.observe lib.json parsed.rows
        (lib.utcDate result.responseReceivedTs) (parseContext result message) freshId
        ops.appendPresence
      match outcome with
      | .error e => pure ({ s with presence }, { ok := false, error := some e })
      | .ok details => pure ({ s with presence }, { ok := true, details := some details })
    | _, _ =>
      pure ({ s with presence := s.presence.invalidate "parse_observation_gap" }, { ok := false })
  else pure (s, { ok := true })

/-- The change-tracking and spool blocks, of a response that parsed. -/
def trackRows (lib : Libraries) (ops : StorageOps m) (s : CollectorState) (result : FetchResult)
    (parsed : Parsed) : m (CollectorState × Tracked) :=
  if parsed.ok then do
    let date := lib.utcDate result.responseReceivedTs
    let tracked ← trackAndStage (s.trackers result.feedName) parsed.rows date
      result.responseReceivedTs (ops.stage result.feedName date result.pollId)
    pure ({ s with trackers := Function.update s.trackers result.feedName tracked.tracker },
      tracked)
  else pure (s, { tracker := s.trackers result.feedName })

/-- `isinstance(error, ChangeTrackerSignalError)`. -/
def failureFlag (e : PyError) : Flag :=
  if e.type = .changeTrackerSignalError then .changeTrackerSignalMissing else .changeTrackerFailed

/-- The exception of a step, if it raised. -/
def raised {α : Type} : Except PyError α → Option PyError
  | .ok _ => none
  | .error e => some e

/-- Did change tracking, where it ran, and staging, where it ran, go well. -/
def trackedOk (tracked : Tracked) : Bool :=
  (raised tracked.changeTracking).isNone && (raised tracked.spool).isNone

/-- `_archive_raw` for a response. -/
def archive (c : CollectorConfig) (lib : Libraries) (ops : StorageOps m) (attempt : Attempt)
    (s : CollectorState) (result : FetchResult) (payload : Bytes) (force : Bool) :
    m (CollectorState × RawOutcome) := do
  let (raw, outcome) ← archiveRaw c ops.raw attempt s.raw
    ⟨result.feedName, lib.utcDate result.responseReceivedTs⟩ result.responseReceivedTs payload force
  pure ({ s with raw }, outcome)

/-- What `record_success` is told. -/
def successOf (result : FetchResult) (parsed : Parsed) (presence : PresenceOutcome)
    (tracked : Tracked) (raw : RawOutcome) : Success where
  nowTs := result.responseReceivedTs
  headerTimestamp := parsed.feed.bind fun message => message.headerTimestamp.map Int.ofNat
  contentSha256 := parsed.contentHash
  maxEntityTimestamp := parsed.feed.bind maxEntityTimestamp
  parseOk := parsed.ok
  presenceOk := presence.ok
  changeTrackingOk := (raised tracked.changeTracking).isNone
  changeTrackingFailureFlag := (raised tracked.changeTracking).map failureFlag
  rawOk := raw.ok
  spoolOk := (raised tracked.spool).isNone
  entityCount := parsed.feed.map fun message => message.entities.length

/-- The event of a response with a payload. Only rows that are staged count as emitted. -/
def eventOf (lib : Libraries) (result : FetchResult) (payload : Bytes) (parsed : Parsed)
    (auxiliaryChanged : Bool) (presence : PresenceOutcome) (tracked : Tracked) (raw : RawOutcome)
    (flags : List String) : JournalEvent :=
  let trip := result.feedName = .tripupdates
  let changeTrackingError := raised tracked.changeTracking
  let spoolError := raised tracked.spool
  { pollId := result.pollId
    feed := result.feedName
    success := true
    error := (parsed.error <|> changeTrackingError <|> spoolError <|> presence.error).map lib.redact
    presenceRequired := trip
    presenceOk := if trip then some presence.ok else none
    presenceError := presence.error.map lib.redact
    presenceDetails := presence.details
    parseOk := parsed.ok
    parseError := parsed.error.map lib.redact
    changeTrackingOk := changeTrackingError.isNone
    changeTrackingError := changeTrackingError.map lib.redact
    changeTrackingFailureFlag := changeTrackingError.map failureFlag
    spoolError := spoolError.map lib.redact
    payloadSha256 := some (lib.sha256 payload)
    entityContentSha256 := some parsed.contentHash
    freshnessFlags := flags
    rawDue := raw.archived || !raw.ok
    rawArchived := raw.archived
    rawOk := raw.ok
    rawPath :=
      if raw.archived then
        some (RawPath.text ⟨result.feedName, lib.utcDate result.responseReceivedTs⟩)
      else none
    rawError := raw.error.map lib.redact
    tripAuxiliarySha256 := auxiliarySha256 lib result parsed
    tripAuxiliaryStateChanged := if trip then some auxiliaryChanged else none
    parsedRows := parsed.rows.length
    selectedRows :=
      if parsed.ok && changeTrackingError.isNone then tracked.emittedRows.length else 0
    emittedRows := if parsed.ok && trackedOk tracked then tracked.emittedRows.length else 0
    spoolOk := spoolError.isNone
    spoolPath := match tracked.spool with | .ok path => path | .error _ => none }

/-- Appending a poll's event, and what becomes of it. -/
def appendEvent (lib : Libraries) (ops : StorageOps m) (s : CollectorState) (result : FetchResult)
    (event : JournalEvent) : m (CollectorState × Bool) := do
  match ← ops.appendJournal result.feedName (lib.utcDate result.responseReceivedTs) event with
  | .ok () => pure ({ s with monitor := s.monitor.journal result.feedName true }, true)
  | .error _ => pure ({ s with monitor := s.monitor.journal result.feedName false }, false)

/-- `_write_run_metadata`, whose failure is only reported. -/
def writeRunMetadata (ops : StorageOps m) (s : CollectorState) : m CollectorState := do
  if s.runMetadataWritten then pure s
  else
    match ← ops.writeRunMetadata with
    | .ok () => pure { s with runMetadataWritten := true }
    | .error _ => pure s

/-- A response without a payload: a gap in presence, a failure in health and journal. -/
def processFailure (lib : Libraries) (ops : StorageOps m) (s : CollectorState)
    (result : FetchResult) : m (CollectorState × Except PyError Unit) := do
  let s := s.gap result.feedName "http_observation_gap"
  let monitor :=
    s.monitor.recordFailure result.feedName (result.error.getD "unknown fetch failure")
  let s := { s with monitor }
  match ← ops.saveHealth monitor with
  | .error e => pure (s, .error e)
  | .ok () =>
    let event : JournalEvent :=
      { pollId := result.pollId, feed := result.feedName, success := false, error := result.error }
    let (s, _) ← appendEvent lib ops s result event
    pure (s, .ok ())

/-- The raw fallback for a poll whose event could not be appended. -/
def journalFallback (c : CollectorConfig) (lib : Libraries) (ops : StorageOps m)
    (s : CollectorState) (result : FetchResult) (payload : Bytes) (appended archived : Bool) :
    m CollectorState := do
  if !appended && !archived then
    let (s, _) ← archive c lib ops .journalFallback s result payload true
    pure s
  else pure s

/-- The end of a response with a payload: health, the journal event, and the fallback. A failing
health write ends the processing. -/
def finish (c : CollectorConfig) (lib : Libraries) (ops : StorageOps m) (s : CollectorState)
    (result : FetchResult) (payload : Bytes) (parsed : Parsed) (auxiliaryChanged : Bool)
    (presence : PresenceOutcome) (tracked : Tracked) (raw : RawOutcome) :
    m (CollectorState × Except PyError Unit) := do
  let (monitor, flags) :=
    s.monitor.recordSuccess result.feedName (successOf result parsed presence tracked raw)
  let s := { s with monitor }
  match ← ops.saveHealth monitor with
  | .error e => pure (s, .error e)
  | .ok () =>
    let event := eventOf lib result payload parsed auxiliaryChanged presence tracked raw flags
    let (s, appended) ← appendEvent lib ops s result event
    let s ← journalFallback c lib ops s result payload appended raw.archived
    pure (s, .ok ())

/-- The forced archival of a response whose auxiliary state changed, or of one that lost data on its
way, unless the response is archived already. -/
def archiveUnless (c : CollectorConfig) (lib : Libraries) (ops : StorageOps m) (attempt : Attempt)
    (s : CollectorState) (result : FetchResult) (payload : Bytes) (needed : Bool)
    (raw : RawOutcome) : m (CollectorState × RawOutcome) :=
  if needed && !raw.archived then archive c lib ops attempt s result payload true
  else pure (s, raw)

/-- The auxiliary signature advances when the full response is durable. -/
def advanceAuxiliary (lib : Libraries) (s : CollectorState) (result : FetchResult)
    (parsed : Parsed) (raw : RawOutcome) : CollectorState :=
  match auxiliarySha256 lib result parsed with
  | some digest =>
    if raw.archived && raw.ok then { s with archivedTripAuxiliarySha256 := some digest } else s
  | none => s

/-- A response with a payload. -/
def processPayload (c : CollectorConfig) (lib : Libraries) (ops : StorageOps m)
    (s : CollectorState) (result : FetchResult) (payload : Bytes) :
    m (CollectorState × Except PyError Unit) := do
  let parsed := parsePayload lib result payload
  let changed := auxiliaryChanged lib s result parsed
  let (s, raw) ← archive c lib ops .regular s result payload false
  let (s, raw) ← archiveUnless c lib ops .auxiliary s result payload changed raw
  let (s, presence) ← observePresence lib ops s result parsed
  let (s, tracked) ← trackRows lib ops s result parsed
  let lossy := !parsed.ok || !trackedOk tracked || !presence.ok
  let (s, raw) ← archiveUnless c lib ops .fallback s result payload lossy raw
  let s := advanceAuxiliary lib s result parsed raw
  finish c lib ops s result payload parsed changed presence tracked raw

/-- `Collector.process_result`: the state afterwards, and the exception that went through. -/
def processResult (c : CollectorConfig) (lib : Libraries) (ops : StorageOps m)
    (s : CollectorState) (result : FetchResult) : m (CollectorState × Except PyError Unit) := do
  let s ← writeRunMetadata ops s
  match result.payload with
  | none => processFailure lib ops s result
  | some payload => processPayload c lib ops s result payload

end BkkCollector.Collector.ProcessResult
