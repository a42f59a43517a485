import Mathlib.Data.List.AList
import Mathlib.Algebra.Order.Group.Abs
import BkkCollector.Config
import BkkCollector.Python.Collections
import BkkCollector.Realtime.TripUpdatePolicy

/-! # Change tracking

A `ChangeTracker` lets a row through when its key is new this day, when a tracked field changed, or
when the key's heartbeat is over. It remembers what was written: the caller filters a poll, stages
the rows that came out, and commits them only once they are durable.

The comparison of a poll is against the rows written before it and, for a key that occurs twice,
against the rows of the poll itself that were let through. -/

namespace BkkCollector.Realtime.Dedup

open BkkCollector.Python.Objects BkkCollector.Python.Collections BkkCollector.Config
open BkkCollector.Realtime.TripUpdatePolicy

/-! ### Construction -/

/-- The arguments of a `ChangeTracker`. -/
structure TrackerArguments where
  keyFields : List String
  valueFields : List String := []
  heartbeatSeconds : ℚ := 1800
  numericToleranceFields : List String := []
  tolerance : ℚ := 0
  numericTolerances : List (String × ℚ) := []
  requiredSignalFields : List String := []
  nullGuardMinRows : ℤ := 1000

namespace TrackerArguments

variable (a : TrackerArguments)

/-- `tracked_fields`. -/
def trackedFields : List String := a.valueFields ++ a.numericToleranceFields

/-- The signals of the null guard. -/
def signalFields : List String :=
  if a.requiredSignalFields = [] then sortedSet a.trackedFields else a.requiredSignalFields

/-- Tolerances of fields that are not tracked with one. -/
def unknownTolerances : List String :=
  (a.numericTolerances.map (·.1)).filter fun f => f ∉ a.numericToleranceFields

/-- Signals that are not tracked. -/
def unknownSignals : List String := a.signalFields.filter fun f => f ∉ a.trackedFields

/-- What `__init__` checks. -/
structure Valid : Prop where
  tolerances_known : a.unknownTolerances = []
  tolerance_nonneg : 0 ≤ a.tolerance
  tolerances_nonneg : ∀ p ∈ a.numericTolerances, 0 ≤ p.2
  tracked : a.trackedFields ≠ []
  signals_known : a.unknownSignals = []
  nullGuard_pos : 0 < a.nullGuardMinRows

end TrackerArguments

/-- The repr of a list of strings. -/
def reprStrings (l : List String) : String :=
  "[" ++ ", ".intercalate (l.map fun s => "'" ++ s ++ "'") ++ "]"

/-- What a tracker remembers of a key: the values last written, and when. -/
structure Entry where
  exact : List Value
  numeric : List Value
  writtenAt : ℚ
  deriving DecidableEq

/-- The key of a row, as a dictionary sees it. -/
abbrev Key := List Value

/-- The tracker's memory. -/
abbrev Memory := AList fun _ : Key => Entry

/-- **A tracker**: arguments that passed the checks, and the state. `lastExpiry` is `none` for
`float("-inf")`. -/
structure ChangeTracker where
  args : TrackerArguments
  valid : args.Valid
  consecutiveAllNullRows : ℕ := 0
  last : Memory := ∅
  day : Option String := none
  lastExpiry : Option ℚ := none

/-- `ChangeTracker.__init__`. -/
def ChangeTracker.init (a : TrackerArguments) : Except PyError ChangeTracker :=
  if h1 : a.unknownTolerances = [] then
    if h2 : 0 ≤ a.tolerance ∧ ∀ p ∈ a.numericTolerances, 0 ≤ p.2 then
      if h3 : a.trackedFields ≠ [] then
        if h4 : a.unknownSignals = [] then
          if h5 : 0 < a.nullGuardMinRows then
            .ok { args := a, valid := ⟨h1, h2.1, h2.2, h3, h4, h5⟩ }
          else .error ⟨.valueError, "null_guard_min_rows must be greater than zero"⟩
        else
          .error ⟨.valueError, "required signals are not tracked fields: " ++
            reprStrings (sortedSet a.unknownSignals)⟩
      else
        .error ⟨.valueError, "ChangeTracker must configure at least one mutable tracked field"⟩
    else .error ⟨.valueError, "numeric tolerances must be finite and not negative"⟩
  else
    .error ⟨.valueError, "numeric tolerances configured for untracked fields: " ++
      reprStrings (sortedSet a.unknownTolerances)⟩

/-! ### Comparison -/

namespace TrackerArguments

variable (a : TrackerArguments)

/-- The key of a row. -/
def keyOf (row : Row) : Key := a.keyFields.map fun f => (row.get f).key

/-- What is remembered of a row written at `nowTs`. -/
def entryOf (row : Row) (nowTs : ℚ) : Entry where
  exact := a.valueFields.map row.get
  numeric := a.numericToleranceFields.map row.get
  writtenAt := nowTs

/-- The tolerance of a field. -/
def toleranceOf (field : String) : ℚ := (a.numericTolerances.lookup field).getD a.tolerance

/-- `_numeric_changed`, over the fields with their previous and new values: a difference of objects
that are no numbers raises. -/
def numericChanged : List String → List Value → List Value → Except PyError Bool
  | field :: fields, prev :: prevs, new :: news =>
    if prev.isNone && new.isNone then numericChanged fields prevs news
    else if prev.isNone || new.isNone then .ok true
    else if a.toleranceOf field ≤ 0 then
      if new.key ≠ prev.key then .ok true else numericChanged fields prevs news
    else
      match new.number, prev.number with
      | some n, some p =>
        if a.toleranceOf field < |n - p| then .ok true else numericChanged fields prevs news
      | _, _ => .error ⟨.typeError, "unsupported operand type(s) for -"⟩
  | _, _, _ => .ok false

/-- The decision about one row: was its key never written, did an exact or a tolerant field change,
or is the heartbeat over. -/
def shouldWrite (prev : Option Entry) (row : Row) (nowTs : ℚ) : Except PyError Bool :=
  match prev with
  | none => .ok true
  | some e =>
    let new := a.entryOf row nowTs
    if e.exact.map Value.key ≠ new.exact.map Value.key then .ok true
    else
      match a.numericChanged a.numericToleranceFields e.numeric new.numeric with
      | .error err => .error err
      | .ok true => .ok true
      | .ok false => .ok (decide (a.heartbeatSeconds ≤ nowTs - e.writtenAt))

end TrackerArguments

/-! ### The operations -/

namespace ChangeTracker

variable (t : ChangeTracker)

/-- `_maybe_reset`. -/
def maybeReset (date : String) : ChangeTracker :=
  if t.day ≠ some date then { t with last := ∅, day := some date, lastExpiry := none } else t

/-- `_expire_heartbeat_entries`. -/
def expireHeartbeatEntries (nowTs : ℚ) : ChangeTracker :=
  if t.lastExpiry.all fun e => min 60 t.args.heartbeatSeconds ≤ nowTs - e then
    let expired := (t.last.entries.filter fun e =>
      decide (t.args.heartbeatSeconds ≤ nowTs - e.2.writtenAt)).map (·.1)
    { t with last := expired.foldl (fun d k => d.erase k) t.last, lastExpiry := some nowTs }
  else t

/-- The loop of `filter` over the rows of a poll: the rows let through, and the overlay of this
poll's changes. -/
def select (nowTs : ℚ) : List Row → Memory → Except PyError (List Row × Memory)
  | [], prospective => .ok ([], prospective)
  | row :: rows, prospective => do
    let key := t.args.keyOf row
    let prev := (prospective.lookup key).orElse fun _ => t.last.lookup key
    let write ← t.args.shouldWrite prev row nowTs
    if write then
      let (out, overlay) ← select nowTs rows (prospective.insert key (t.args.entryOf row nowTs))
      pure (row :: out, overlay)
    else select nowTs rows prospective

/-- Does any row have one of the required signals. -/
def hasSignal (rows : List Row) : Bool :=
  rows.any fun row => t.args.signalFields.any fun f => !(row.get f).isNone

/-- The null guard's count after a poll. -/
def nullRows (rows : List Row) : ℕ :=
  if rows = [] then t.consecutiveAllNullRows
  else if t.hasSignal rows then 0
  else t.consecutiveAllNullRows + rows.length

/-- The message of `ChangeTrackerSignalError`. -/
def signalMessage : String :=
  "all required change-tracking signals are null across " ++ toString t.consecutiveAllNullRows ++
    " consecutive rows: " ++ ", ".intercalate t.args.signalFields

/-- How `filter` starts: reset, expiry, and the null guard's count. -/
def enter (rows : List Row) (date : String) (nowTs : ℚ) : ChangeTracker :=
  let t := (t.maybeReset date).expireHeartbeatEntries nowTs
  { t with consecutiveAllNullRows := t.nullRows rows }

/-- `filter`: the tracker afterwards, and the rows let through or the exception. -/
def filter (rows : List Row) (date : String) (nowTs : ℚ) (update : Bool) :
    ChangeTracker × Except PyError (List Row) :=
  let t := t.enter rows date nowTs
  if rows ≠ [] ∧ ¬ t.hasSignal rows ∧ t.args.nullGuardMinRows ≤ t.consecutiveAllNullRows then
    (t, .error ⟨.changeTrackerSignalError, t.signalMessage⟩)
  else
    match t.select nowTs rows ∅ with
    | .error e => (t, .error e)
    | .ok (out, prospective) =>
      (if update then { t with last := prospective ∪ t.last } else t, .ok out)

/-- `commit`. -/
def commit (rows : List Row) (date : String) (nowTs : ℚ) : ChangeTracker :=
  let t := t.maybeReset date
  { t with
    last := rows.foldl (fun d row => d.insert (t.args.keyOf row) (t.args.entryOf row nowTs)) t.last }

end ChangeTracker

/-! ### The collector's trackers -/

/-- The tracker arguments of `_make_trackers`; vehicle positions are not tracked. -/
def trackerArguments (c : CollectorConfig) : Feed → Option TrackerArguments
  | .vehiclepositions => none
  | .tripupdates => some
    { keyFields := tripUpdateKeyFields
      valueFields := tripUpdateExactMutableFields
      numericToleranceFields := tripUpdateTolerantNumericFields
      tolerance := c.delayChangeThresholdSeconds
      numericTolerances := c.tripUpdateNumericTolerances
      requiredSignalFields := tripUpdateDelayFields ++ tripUpdatePredictionTimeFields
      nullGuardMinRows := c.changeTrackerNullGuardRows
      heartbeatSeconds := c.heartbeatSeconds }
  | .alerts => some
    { keyFields := ["entity_id", "affected_agency_id", "affected_route_id", "affected_route_type",
        "affected_stop_id", "affected_direction_id", "affected_trip_id",
        "affected_trip_start_date", "affected_trip_start_time"]
      valueFields := ["cause", "effect", "severity_level", "header_text_json",
        "description_text_json", "url_json", "active_periods_json", "communication_periods_json",
        "impact_periods_json", "informed_entities_json", "bkk_start_text_json",
        "bkk_end_text_json", "bkk_modified_time", "bkk_route_details_json"]
      heartbeatSeconds := c.heartbeatSeconds }

theorem TrackerArguments.unknownSignals_eq_nil {a : TrackerArguments}
    (h : a.requiredSignalFields ⊆ a.trackedFields) : a.unknownSignals = [] := by
  simp only [unknownSignals, List.filter_eq_nil_iff, decide_eq_true_eq, not_not]
  intro f hf
  unfold signalFields at hf
  split at hf
  · exact mem_sortedSet.mp hf
  · exact h hf

/-- **A validated configuration makes valid trackers.** -/
theorem trackerArguments_valid (c : CollectorConfig) (feed : Feed) :
    ∀ a ∈ trackerArguments c feed, a.Valid := by
  intro a ha
  cases feed with
  | vehiclepositions => cases ha
  | tripupdates =>
    cases ha
    have hsignals : tripUpdateDelayFields ++ tripUpdatePredictionTimeFields ⊆
        tripUpdateExactMutableFields ++ tripUpdateTolerantNumericFields :=
      List.Subset.trans (List.subset_append_left _ tripUpdateDistanceFields)
        (List.subset_append_right _ _)
    exact
      { tolerances_known := rfl
        tolerance_nonneg := c.delayThreshold_nonneg
        tolerances_nonneg := c.numericTolerances_nonneg
        tracked := List.cons_ne_nil _ _
        signals_known := TrackerArguments.unknownSignals_eq_nil hsignals
        nullGuard_pos := by exact_mod_cast c.nullGuardRows_pos }
  | alerts =>
    cases ha
    exact
      { tolerances_known := rfl
        tolerance_nonneg := le_refl _
        tolerances_nonneg := fun p hp => by cases hp
        tracked := List.cons_ne_nil _ _
        signals_known := TrackerArguments.unknownSignals_eq_nil (List.nil_subset _)
        nullGuard_pos := (by decide : (0 : ℤ) < 1000) }

/-- The constructor accepts valid arguments. -/
theorem ChangeTracker.init_of_valid {a : TrackerArguments} (h : a.Valid) :
    ChangeTracker.init a = .ok { args := a, valid := h } := by
  have h2 : 0 ≤ a.tolerance ∧ ∀ p ∈ a.numericTolerances, 0 ≤ p.2 :=
    ⟨h.tolerance_nonneg, h.tolerances_nonneg⟩
  rw [ChangeTracker.init, dif_pos h.tolerances_known, dif_pos h2, dif_pos h.tracked,
    dif_pos h.signals_known, dif_pos h.nullGuard_pos]

/-- `_make_trackers`. -/
def makeTracker (c : CollectorConfig) (feed : Feed) : Option ChangeTracker :=
  (trackerArguments c feed).pmap (fun a ha => { args := a, valid := ha })
    (trackerArguments_valid c feed)

/-- A new tracker remembers nothing, and has the configured heartbeat. -/
theorem makeTracker_spec {c : CollectorConfig} {feed : Feed} {t : ChangeTracker}
    (h : makeTracker c feed = some t) :
    t.last = ∅ ∧ t.args.heartbeatSeconds = c.heartbeatSeconds := by
  cases feed <;> cases h <;> exact ⟨rfl, rfl⟩

/-! ### The live flow -/

/-- What filtering, staging and committing one parsed poll came to. -/
structure Tracked where
  tracker : Option ChangeTracker
  emittedRows : List Row := []
  changeTracking : Except PyError Unit := .ok ()
  spool : Except PyError (Option String) := .ok none

/-- The two blocks of `Collector.process_result` between parsing and the raw fallback: filter with
`update=False`, stage what came out, commit it if it was staged. A feed without a tracker emits
every row. -/
def trackAndStage {m : Type → Type} [Monad m] (tracker : Option ChangeTracker) (rows : List Row)
    (date : String) (nowTs : ℚ) (stage : List Row → m (Except PyError (Option String))) :
    m Tracked := do
  let (tracker, selected) :=
    match tracker with
    | some t => ((some (t.filter rows date nowTs false).1), (t.filter rows date nowTs false).2)
    | none => (none, .ok rows)
  match selected with
  | .error e => pure { tracker, changeTracking := .error e }
  | .ok emittedRows =>
    match ← stage emittedRows with
    | .error e => pure { tracker, emittedRows, spool := .error e }
    | .ok path =>
      pure { tracker := tracker.map (·.commit emittedRows date nowTs), emittedRows
             spool := .ok path }

end BkkCollector.Realtime.Dedup
