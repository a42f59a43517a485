import Mathlib.Data.List.Nodup
import Mathlib.Data.List.Perm.Subperm
import Mathlib.Logic.Relation
import BkkCollector.Realtime.RealtimeScheduler

/-! # Runs of the scheduler

The scheduler thread takes steps, workers complete requests, and the main thread gets and
acknowledges results, in any order; a step holds the lock only up to its puts. Beside the scheduler
a system keeps what happened: the requests that were submitted, the outcomes of the workers, and
what `get` returned. -/

namespace BkkCollector.Realtime.SchedulerRuns

open BkkCollector.Realtime.RealtimeScheduler

variable {F V E : Type} [DecidableEq F]

/-! ### Systems -/

/-- A request as it was submitted, at `time`, for `deadline`. -/
structure Request (F : Type) where
  feedName : F
  pollId : String
  scheduledForAt : String
  schedulerLagMs : ℚ
  missedDeadlinesBeforeRequest : ℕ
  deadline : ℚ
  time : ℚ

/-- An outcome of the worker of a request. -/
structure Answer (F V E : Type) where
  feedName : F
  pollId : String
  outcome : Outcome V E

/-- A scheduler, the results its thread has still to put, and what happened so far. -/
structure Sys (F V E : Type) where
  scheduler : Scheduler F V E
  ready : List (ScheduledResult F V E) := []
  submitted : List (Request F) := []
  answered : List (Answer F V E) := []
  delivered : List (ScheduledResult F V E) := []

/-- The schedule of a feed. -/
def Sys.schedule (s : Sys F V E) (feed : F) : FeedSchedule V E := s.scheduler.schedules feed

variable (utcIso : ℚ → String)

omit [DecidableEq F] in
/-- The request of a schedule that submits. -/
def requestOf (now : ℚ) (reading : Reading) (feed : F) (s : FeedSchedule V E) : Request F :=
  let s' := advance utcIso now reading s
  { feedName := feed
    pollId := reading.pollId
    scheduledForAt := s'.activeScheduledForAt.getD ""
    schedulerLagMs := s'.activeSchedulerLagMs
    missedDeadlinesBeforeRequest := s'.activeMissedBeforeRequest
    deadline := latestDue now s
    time := now }

omit [DecidableEq F] in
/-- The request the second loop of a step submits for a feed. -/
def submitDue (accepting : Bool) (now : ℚ) (reading : Reading) (feed : F)
    (s : FeedSchedule V E) : Option (Request F) :=
  if accepting ∧ s.nextDeadline ≤ now ∧ s.future.isNone then
    some (requestOf utcIso now reading feed s)
  else none

section SubmitDue

variable {now : ℚ} (reading : Reading) (feed : F) {s : FeedSchedule V E}

omit [DecidableEq F] in
theorem submitDue_stopped : submitDue utcIso false now reading feed s = none :=
  if_neg fun hdue => Bool.false_ne_true hdue.1

omit [DecidableEq F] in
theorem submitDue_early (h : now < s.nextDeadline) :
    submitDue utcIso true now reading feed s = none :=
  if_neg fun hdue => absurd h (not_lt.mpr hdue.2.1)

omit [DecidableEq F] in
theorem submitDue_busy (h : s.future.isSome = true) :
    submitDue utcIso true now reading feed s = none := by
  refine if_neg fun hdue => ?_
  rw [Option.isNone_iff_eq_none.mp hdue.2.2] at h
  cases h

omit [DecidableEq F] in
theorem submitDue_free (h : s.nextDeadline ≤ now) (hfree : s.future.isNone = true) :
    submitDue utcIso true now reading feed s = some (requestOf utcIso now reading feed s) :=
  if_pos ⟨rfl, h, hfree⟩

end SubmitDue

omit [DecidableEq F] in
/-- The request a step submits for a feed. -/
def submission (accepting : Bool) (now : ℚ) (reading : Reading) (feed : F)
    (s : FeedSchedule V E) : Option (Request F) :=
  submitDue utcIso accepting now reading feed (takeResult utcIso now reading feed s).1

/-- The system when `step` lets go of the lock. -/
def Sys.locked (feeds : Feeds F) (now : ℚ) (readings : F → Reading) (s : Sys F V E) :
    Sys F V E :=
  let (scheduler, ready) := stepLocked utcIso feeds now readings s.scheduler
  { s with
    scheduler := scheduler
    ready := ready
    submitted := s.submitted ++ feeds.order.filterMap fun feed =>
      submission utcIso s.scheduler.accepting now (readings feed) feed (s.schedule feed) }

/-- No request of a feed had this poll id. -/
def Fresh (s : Sys F V E) (feed : F) (pollId : String) : Prop :=
  ∀ request ∈ s.submitted, request.feedName = feed → request.pollId ≠ pollId

/-- **One step** of one of the threads, with the feed it is about. -/
inductive Step (feeds : Feeds F) : Option F → Sys F V E → Sys F V E → Prop
  | step {s : Sys F V E} (now : ℚ) (readings : F → Reading) (idle : s.ready = [])
      (fresh : ∀ feed, Fresh s feed (readings feed).pollId) :
      Step feeds none s (s.locked utcIso feeds now readings)
  | put {s : Sys F V E} {item : ScheduledResult F V E} {items : List (ScheduledResult F V E)}
      {scheduler : Scheduler F V E} (ready : s.ready = item :: items)
      (put : putNowait feeds item s.scheduler = some scheduler) :
      Step feeds (some item.feedName) s { s with scheduler := scheduler, ready := items }
  | complete {s : Sys F V E} (feed : F) (outcome : Outcome V E) {future : Future V E}
      (active : (s.schedule feed).future = some future) (running : future.outcome = none) :
      Step feeds (some feed) s { s with
        scheduler := complete feed outcome s.scheduler
        answered := s.answered ++ [⟨feed, future.pollId, outcome⟩] }
  | get {s : Sys F V E} {item : ScheduledResult F V E} {scheduler : Scheduler F V E}
      (got : get s.scheduler = some (item, scheduler)) :
      Step feeds (some item.feedName) s
        { s with scheduler := scheduler, delivered := s.delivered ++ [item] }
  | acknowledge {s : Sys F V E} (item : ScheduledResult F V E) (obtained : item ∈ s.delivered) :
      Step feeds (some item.feedName) s { s with scheduler := acknowledge item s.scheduler }
  | stop {s : Sys F V E} :
      Step feeds none s { s with scheduler := { s.scheduler with accepting := false } }

/-- A new scheduler. -/
def Sys.boot (intervals : F → Interval) (start : ℚ) : Sys F V E where
  scheduler := initial intervals start

/-- The systems that are reached. -/
def Run (feeds : Feeds F) (intervals : F → Interval) (start : ℚ) (s : Sys F V E) : Prop :=
  Relation.ReflTransGen (fun s t => ∃ feed, Step utcIso feeds feed s t)
    (Sys.boot intervals start) s

/-! ### What belongs to a feed -/

/-- The requests of a feed. -/
def Sys.requests (s : Sys F V E) (feed : F) : List (Request F) :=
  s.submitted.filter fun request => request.feedName = feed

/-- The results of a feed in a list. -/
def ofFeed (feed : F) (results : List (ScheduledResult F V E)) : List (ScheduledResult F V E) :=
  results.filter fun result => result.feedName = feed

/-- What a list of all feeds has for one of them. -/
theorem filter_filterMap {α : Type} (feeds : Feeds F) (name : α → F) (g : F → Option α)
    (hg : ∀ feed a, g feed = some a → name a = feed) (feed : F) :
    (feeds.order.filterMap g).filter (fun a => name a = feed) = (g feed).toList := by
  have key : ∀ order : List F, order.Nodup →
      (order.filterMap g).filter (fun a => name a = feed) =
        if feed ∈ order then (g feed).toList else [] := by
    intro order hnodup
    induction order with
    | nil => rfl
    | cons f rest ih =>
      obtain ⟨hf, hrest⟩ := List.nodup_cons.mp hnodup
      have hih := ih hrest
      rw [List.filterMap_cons]
      by_cases heq : f = feed
      · subst heq
        rw [if_neg hf] at hih
        rw [if_pos List.mem_cons_self]
        cases hgf : g f with
        | none => exact hih
        | some a =>
          have hname : name a = f := hg f a hgf
          simp only [List.filter_cons, hname, decide_true, if_true, hih]
          rfl
      · have hmem : feed ∈ f :: rest ↔ feed ∈ rest := by
          rw [List.mem_cons]
          exact or_iff_right (Ne.symm heq)
        simp only [hmem]
        cases hgf : g f with
        | none => exact hih
        | some a =>
          have hname : name a ≠ feed := by
            rw [hg f a hgf]
            exact heq
          simp only [List.filter_cons, hname, decide_false]
          exact hih
  rw [key feeds.order feeds.nodup, if_pos (feeds.all feed)]

omit [DecidableEq F] in
theorem feedName_submission {accepting : Bool} {now : ℚ} {reading : Reading} {feed : F}
    {s : FeedSchedule V E} {request : Request F}
    (h : submission utcIso accepting now reading feed s = some request) :
    request.feedName = feed := by
  unfold submission submitDue at h
  split at h
  · obtain rfl := Option.some.inj h
    rfl
  · cases h

omit [DecidableEq F] in
theorem feedName_takeResult {now : ℚ} {reading : Reading} {feed : F} {s : FeedSchedule V E}
    {result : ScheduledResult F V E} (h : (takeResult utcIso now reading feed s).2 = some result) :
    result.feedName = feed := by
  unfold takeResult at h
  split at h
  · cases h
  · split at h
    · obtain rfl := Option.some.inj h
      rfl
    · cases h

theorem requests_locked (feeds : Feeds F) (now : ℚ) (readings : F → Reading) (s : Sys F V E)
    (feed : F) : (s.locked utcIso feeds now readings).requests feed = s.requests feed ++
      (submission utcIso s.scheduler.accepting now (readings feed) feed (s.schedule feed)).toList := by
  unfold Sys.requests Sys.locked
  dsimp only
  rw [List.filter_append, filter_filterMap feeds Request.feedName _
    (fun _ _ h => feedName_submission utcIso h)]

theorem ready_locked (feeds : Feeds F) (now : ℚ) (readings : F → Reading) (s : Sys F V E)
    (feed : F) : ofFeed feed (s.locked utcIso feeds now readings).ready =
      (takeResult utcIso now (readings feed) feed (s.schedule feed)).2.toList :=
  filter_filterMap feeds ScheduledResult.feedName _
    (fun _ _ h => feedName_takeResult utcIso h) feed

end BkkCollector.Realtime.SchedulerRuns
