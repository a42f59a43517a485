import Mathlib.Data.Rat.Floor
import Mathlib.Logic.Function.Basic

/-! # The realtime scheduler

`IndependentFeedScheduler`: a schedule and at most one active request for each feed, and a queue of
results with room for one of each. Times are exact. A step of the scheduler first moves completed
requests out of the schedules and submits the requests that are due, and then, without the lock,
puts the results into the queue. The clock of the wall, the poll ids and the outcomes of the
requests come from outside. -/

namespace BkkCollector.Realtime.RealtimeScheduler

variable {F V E : Type}

/-- What becomes of a request: `fetch` returns a value or raises. -/
abbrev Outcome (V E : Type) := Except E V

/-- A future: the request it was submitted for, and its outcome once it is done. -/
structure Future (V E : Type) where
  pollId : String
  outcome : Option (Outcome V E) := none

/-- An interval between deadlines. -/
abbrev Interval := {q : ℚ // 0 < q}

/-- `FeedSchedule`. -/
structure FeedSchedule (V E : Type) where
  intervalSeconds : Interval
  nextDeadline : ℚ
  future : Option (Future V E) := none
  activePollId : Option String := none
  activeScheduledForAt : Option String := none
  activeSchedulerLagMs : ℚ := 0
  activeMissedBeforeRequest : ℕ := 0
  inFlightStartedMonotonic : Option ℚ := none
  resultPending : Bool := false
  pendingPollId : Option String := none
  totalSubmitted : ℕ := 0
  totalCompleted : ℕ := 0
  totalMissedDeadlines : ℕ := 0
  missedSinceLastRequest : ℕ := 0
  lastSchedulerLagMs : Option ℚ := none
  lastCompletedMonotonic : Option ℚ := none
  lastMissedMonotonic : Option ℚ := none

/-- `ScheduledResult`. -/
structure ScheduledResult (F V E : Type) where
  feedName : F
  pollId : String
  outcome : Outcome V E
  scheduledForAt : String
  schedulerLagMs : ℚ
  missedDeadlinesBeforeRequest : ℕ

/-- The feeds in the order of `intervals`. -/
structure Feeds (F : Type) where
  order : List F
  nodup : order.Nodup
  all : ∀ feed, feed ∈ order

/-- `IndependentFeedScheduler`. -/
structure Scheduler (F V E : Type) where
  schedules : F → FeedSchedule V E
  results : List (ScheduledResult F V E) := []
  accepting : Bool := true

/-- What a step reads outside for a feed: the wall clock, and a poll id. -/
structure Reading where
  wallTime : ℚ
  pollId : String

variable (utcIso : ℚ → String)

/-- `__init__`. -/
def initial (intervals : F → Interval) (start : ℚ) : Scheduler F V E where
  schedules feed := { intervalSeconds := intervals feed, nextDeadline := start }

/-- `_deadline_wall_iso`. -/
def deadlineWallIso (wallTime deadline now : ℚ) : String :=
  utcIso (wallTime - max 0 (now - deadline))

/-- The result of the active request. -/
def scheduledResult (reading : Reading) (feed : F) (outcome : Outcome V E)
    (s : FeedSchedule V E) : ScheduledResult F V E where
  feedName := feed
  pollId := s.activePollId.getD "unknown"
  outcome := outcome
  scheduledForAt := s.activeScheduledForAt.getD (utcIso reading.wallTime)
  schedulerLagMs := s.activeSchedulerLagMs
  missedDeadlinesBeforeRequest := s.activeMissedBeforeRequest

/-- The active request is over, and its result waits to be acknowledged. -/
def FeedSchedule.finish (s : FeedSchedule V E) (now : ℚ) : FeedSchedule V E :=
  { s with
    future := none
    resultPending := true
    pendingPollId := some (s.activePollId.getD "unknown")
    inFlightStartedMonotonic := none
    totalCompleted := s.totalCompleted + 1
    lastCompletedMonotonic := some now }

/-- The first loop of `step`, for a feed: a completed request leaves its schedule. -/
def takeResult (now : ℚ) (reading : Reading) (feed : F) (s : FeedSchedule V E) :
    FeedSchedule V E × Option (ScheduledResult F V E) :=
  match s.future with
  | none => (s, none)
  | some future =>
    match future.outcome, s.resultPending with
    | some outcome, false => (s.finish now, some (scheduledResult utcIso reading feed outcome s))
    | _, _ => (s, none)

/-- `int((current - next_deadline) // interval_seconds) + 1`. -/
def dueCount (now : ℚ) (s : FeedSchedule V E) : ℕ :=
  (⌊(now - s.nextDeadline) / s.intervalSeconds.1⌋ + 1).toNat

/-- `next_deadline + (due_count - 1) * interval_seconds`. -/
def latestDue (now : ℚ) (s : FeedSchedule V E) : ℚ :=
  s.nextDeadline + ((dueCount now s : ℚ) - 1) * s.intervalSeconds.1

/-- Deadlines that pass without a request of their own. -/
def FeedSchedule.miss (s : FeedSchedule V E) (now : ℚ) (count : ℕ) : FeedSchedule V E :=
  { s with
    totalMissedDeadlines := s.totalMissedDeadlines + count
    missedSinceLastRequest := s.missedSinceLastRequest + count
    lastMissedMonotonic := some now }

/-- A request is submitted. -/
def FeedSchedule.submit (s : FeedSchedule V E) (now lagMs : ℚ) (pollId scheduledForAt : String) :
    FeedSchedule V E :=
  { s with
    missedSinceLastRequest := 0
    activePollId := some pollId
    activeScheduledForAt := some scheduledForAt
    activeSchedulerLagMs := lagMs
    activeMissedBeforeRequest := s.missedSinceLastRequest
    inFlightStartedMonotonic := some now
    lastSchedulerLagMs := some lagMs
    totalSubmitted := s.totalSubmitted + 1
    future := some { pollId := pollId } }

/-- `next_deadline += due_count * interval_seconds`. -/
def FeedSchedule.pass (s : FeedSchedule V E) (now : ℚ) : FeedSchedule V E :=
  { s with nextDeadline := s.nextDeadline + dueCount now s * s.intervalSeconds.1 }

/-- Deadlines before the latest one are coalesced. -/
def FeedSchedule.coalesce (s : FeedSchedule V E) (now : ℚ) (coalesced : ℕ) : FeedSchedule V E :=
  if coalesced ≠ 0 then s.miss now coalesced else s

/-- `max(0.0, current - latest_due) * 1000.0`. -/
def lagMs (now : ℚ) (s : FeedSchedule V E) : ℚ := max 0 (now - latestDue now s) * 1000

/-- The second loop of `step`, for a feed: deadlines that have come are served or missed. -/
def advance (now : ℚ) (reading : Reading) (s : FeedSchedule V E) : FeedSchedule V E :=
  if now < s.nextDeadline then s
  else if s.future.isSome then (s.pass now).miss now (dueCount now s)
  else
    ((s.pass now).coalesce now (dueCount now s - 1)).submit now (lagMs now s) reading.pollId
      (deadlineWallIso utcIso reading.wallTime (latestDue now s) now)

/-- What a step does to a schedule. -/
def stepFeed (accepting : Bool) (now : ℚ) (reading : Reading) (feed : F) (s : FeedSchedule V E) :
    FeedSchedule V E :=
  let s := (takeResult utcIso now reading feed s).1
  if accepting then advance utcIso now reading s else s

/-- The part of `step` that holds the lock: the new schedules, and the results for the queue. -/
def stepLocked (feeds : Feeds F) (now : ℚ) (readings : F → Reading) (s : Scheduler F V E) :
    Scheduler F V E × List (ScheduledResult F V E) :=
  ({ s with schedules := fun feed =>
      stepFeed utcIso s.accepting now (readings feed) feed (s.schedules feed) },
    feeds.order.filterMap fun feed =>
      (takeResult utcIso now (readings feed) feed (s.schedules feed)).2)

/-- `results.put_nowait(item)`: a queue without room raises `Full`. -/
def putNowait (feeds : Feeds F) (item : ScheduledResult F V E) (s : Scheduler F V E) :
    Option (Scheduler F V E) :=
  if feeds.order.length ≤ s.results.length then none
  else some { s with results := s.results ++ [item] }

/-- The puts of a step. -/
def putAll (feeds : Feeds F) :
    List (ScheduledResult F V E) → Scheduler F V E → Option (Scheduler F V E)
  | [], s => some s
  | item :: items, s => do
    let s ← putNowait feeds item s
    putAll feeds items s

/-- `step`. -/
def step (feeds : Feeds F) (now : ℚ) (readings : F → Reading) (s : Scheduler F V E) :
    Option (Scheduler F V E) :=
  let (s, ready) := stepLocked utcIso feeds now readings s
  putAll feeds ready s

/-- `get`, of a queue that is not empty. -/
def get (s : Scheduler F V E) : Option (ScheduledResult F V E × Scheduler F V E) :=
  match s.results with
  | [] => none
  | item :: items => some (item, { s with results := items })

variable [DecidableEq F]

/-- Another schedule for a feed. -/
def Scheduler.update (s : Scheduler F V E) (feed : F) (state : FeedSchedule V E) :
    Scheduler F V E :=
  { s with schedules := Function.update s.schedules feed state }

/-- `acknowledge`. -/
def acknowledge (item : ScheduledResult F V E) (s : Scheduler F V E) : Scheduler F V E :=
  let state := s.schedules item.feedName
  if state.resultPending ∧ state.pendingPollId = some item.pollId then
    s.update item.feedName { state with resultPending := false, pendingPollId := none }
  else s

/-- The worker of a feed is done. -/
def complete (feed : F) (outcome : Outcome V E) (s : Scheduler F V E) : Scheduler F V E :=
  s.update feed { s.schedules feed with
    future := (s.schedules feed).future.map fun f => { f with outcome := some outcome } }

/-- `stop_and_drain`, once the thread is joined and the executor is shut down. -/
def stopAndDrain (feeds : Feeds F) (now : ℚ) (readings : F → Reading) (s : Scheduler F V E) :
    Option (List (ScheduledResult F V E) × Scheduler F V E) := do
  let drained := s.results
  let s : Scheduler F V E :=
    { results := []
      accepting := false
      schedules := fun feed =>
        { s.schedules feed with resultPending := false, pendingPollId := none } }
  let s ← step utcIso feeds now readings s
  pure (drained ++ s.results, { s with results := [] })

/-! ### Small lemmas -/

section Coalesce

variable (s : FeedSchedule V E) (now : ℚ) (count : ℕ)

@[simp] theorem intervalSeconds_coalesce :
    (s.coalesce now count).intervalSeconds = s.intervalSeconds := by
  unfold FeedSchedule.coalesce
  split <;> rfl

@[simp] theorem nextDeadline_coalesce :
    (s.coalesce now count).nextDeadline = s.nextDeadline := by
  unfold FeedSchedule.coalesce
  split <;> rfl

@[simp] theorem resultPending_coalesce :
    (s.coalesce now count).resultPending = s.resultPending := by
  unfold FeedSchedule.coalesce
  split <;> rfl

@[simp] theorem pendingPollId_coalesce :
    (s.coalesce now count).pendingPollId = s.pendingPollId := by
  unfold FeedSchedule.coalesce
  split <;> rfl

@[simp] theorem totalSubmitted_coalesce :
    (s.coalesce now count).totalSubmitted = s.totalSubmitted := by
  unfold FeedSchedule.coalesce
  split <;> rfl

@[simp] theorem totalMissedDeadlines_coalesce :
    (s.coalesce now count).totalMissedDeadlines = s.totalMissedDeadlines + count := by
  unfold FeedSchedule.coalesce
  split
  · rfl
  · omega

@[simp] theorem missedSinceLastRequest_coalesce :
    (s.coalesce now count).missedSinceLastRequest = s.missedSinceLastRequest + count := by
  unfold FeedSchedule.coalesce
  split
  · rfl
  · omega

end Coalesce

section Advance

variable (reading : Reading) {now : ℚ} {s : FeedSchedule V E}

/-- No deadline has come. -/
theorem advance_early (h : now < s.nextDeadline) : advance utcIso now reading s = s := if_pos h

/-- A request is active. -/
theorem advance_busy (h : s.nextDeadline ≤ now) (hbusy : s.future.isSome = true) :
    advance utcIso now reading s = (s.pass now).miss now (dueCount now s) := by
  unfold advance
  rw [if_neg (not_lt.mpr h), if_pos hbusy]

/-- A request is submitted. -/
theorem advance_free (h : s.nextDeadline ≤ now) (hfree : s.future.isNone = true) :
    advance utcIso now reading s =
      ((s.pass now).coalesce now (dueCount now s - 1)).submit now (lagMs now s) reading.pollId
        (deadlineWallIso utcIso reading.wallTime (latestDue now s) now) := by
  have hnone : s.future = none := Option.isNone_iff_eq_none.mp hfree
  unfold advance
  rw [if_neg (not_lt.mpr h), hnone]
  rfl

end Advance

end BkkCollector.Realtime.RealtimeScheduler
