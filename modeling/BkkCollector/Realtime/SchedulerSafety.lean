import Mathlib
import BkkCollector.Realtime.SchedulerRuns

/-! # No result is lost or doubled

What the system knows about one feed is its `View`; a step of the scheduler moves every view by
itself, and every other step touches the view of one feed only. `Orderly` is the invariant of a
view: its results so far, in order, are those of its requests up to the active one, and at most one
of them is on its way through the queue. -/

namespace BkkCollector.Realtime.SchedulerSafety

open BkkCollector.Realtime.RealtimeScheduler BkkCollector.Realtime.SchedulerRuns

variable {F V E : Type} {utcIso : ℚ → String}

/-! ### Views -/

/-- What belongs to one feed. -/
structure View (F V E : Type) where
  schedule : FeedSchedule V E
  requests : List (Request F)
  answers : List (Answer F V E)
  delivered : List (ScheduledResult F V E)
  queued : List (ScheduledResult F V E)
  ready : List (ScheduledResult F V E)

/-- All results of a feed so far. -/
def View.results (v : View F V E) : List (ScheduledResult F V E) :=
  v.delivered ++ (v.queued ++ v.ready)

/-- The view of a feed. -/
def view [DecidableEq F] (s : Sys F V E) (feed : F) : View F V E where
  schedule := s.schedule feed
  requests := s.requests feed
  answers := s.answered.filter fun answer => answer.feedName = feed
  delivered := ofFeed feed s.delivered
  queued := ofFeed feed s.scheduler.results
  ready := ofFeed feed s.ready

/-- The first loop of a step. -/
def View.take (utcIso : ℚ → String) (now : ℚ) (reading : Reading) (feed : F) (v : View F V E) :
    View F V E :=
  let r := takeResult utcIso now reading feed v.schedule
  { v with schedule := r.1, ready := r.2.toList }

/-- The second loop of a step. -/
def View.submit (utcIso : ℚ → String) (accepting : Bool) (now : ℚ) (reading : Reading) (feed : F)
    (v : View F V E) : View F V E :=
  { v with
    schedule := if accepting then advance utcIso now reading v.schedule else v.schedule
    requests := v.requests ++
      (submitDue utcIso accepting now reading feed v.schedule).toList }

/-! ### Orderly views -/

/-- A result is that of a request: its poll id, its schedule, and an outcome of its worker. -/
structure Yields (answers : List (Answer F V E)) (request : Request F)
    (result : ScheduledResult F V E) : Prop where
  pollId : result.pollId = request.pollId
  scheduledForAt : result.scheduledForAt = request.scheduledForAt
  lag : result.schedulerLagMs = request.schedulerLagMs
  missed : result.missedDeadlinesBeforeRequest = request.missedDeadlinesBeforeRequest
  outcome : ∃ answer ∈ answers, answer.pollId = request.pollId ∧ answer.outcome = result.outcome

/-- The request a schedule is waiting for. -/
structure Active (v : View F V E) (future : Future V E) (request : Request F) : Prop where
  held : v.schedule.future = some future
  same : future.pollId = request.pollId
  pollId : v.schedule.activePollId = some request.pollId
  scheduledForAt : v.schedule.activeScheduledForAt = some request.scheduledForAt
  lag : v.schedule.activeSchedulerLagMs = request.schedulerLagMs
  missed : v.schedule.activeMissedBeforeRequest = request.missedDeadlinesBeforeRequest
  running : future.outcome = none → ∀ answer ∈ v.answers, answer.pollId ≠ request.pollId
  done : ∀ outcome, future.outcome = some outcome →
    ∃ answer ∈ v.answers, answer.pollId = request.pollId ∧ answer.outcome = outcome

/-- The request that is not served yet. -/
inductive Unserved (v : View F V E) : Option (Request F) → Prop
  | idle (future : v.schedule.future = none) : Unserved v none
  | active {future : Future V E} {request : Request F} (waits : Active v future request) :
      Unserved v (some request)

/-- The result on its way through the queue, if there is one. -/
inductive Waiting (v : View F V E) : Prop
  | idle (pending : v.schedule.resultPending = false) (queued : v.queued = [])
      (ready : v.ready = []) : Waiting v
  | pending {earlier : List (ScheduledResult F V E)} {last : ScheduledResult F V E}
      (pending : v.schedule.resultPending = true) (results : v.results = earlier ++ [last])
      (pollId : v.schedule.pendingPollId = some last.pollId)
      (one : (v.queued ++ v.ready).length ≤ 1) : Waiting v

/-- **The invariant of a view.** -/
structure Orderly (v : View F V E) : Prop where
  ids : (v.requests.map Request.pollId).Nodup
  answered : ∀ answer ∈ v.answers, ∃ request ∈ v.requests, request.pollId = answer.pollId
  once : (v.answers.map Answer.pollId).Nodup
  served : ∃ done unserved, v.requests = done ++ unserved.toList ∧
    List.Forall₂ (Yields v.answers) done v.results ∧ Unserved v unserved
  waiting : Waiting v

theorem Yields.more {answers more : List (Answer F V E)} (hmore : ∀ a ∈ answers, a ∈ more)
    {request : Request F} {result : ScheduledResult F V E} (h : Yields answers request result) :
    Yields more request result := by
  obtain ⟨answer, hanswer, hid, houtcome⟩ := h.outcome
  exact ⟨h.pollId, h.scheduledForAt, h.lag, h.missed, answer, hmore answer hanswer, hid, houtcome⟩

/-- The result of the active request is its own. -/
theorem Active.yields (utcIso : ℚ → String) {v : View F V E} {future : Future V E} {request : Request F}
    (h : Active v future request) {outcome : Outcome V E} (houtcome : future.outcome = some outcome)
    (reading : Reading) (feed : F) :
    Yields v.answers request (scheduledResult utcIso reading feed outcome v.schedule) where
  pollId := by
    show v.schedule.activePollId.getD "unknown" = request.pollId
    rw [h.pollId]
    rfl
  scheduledForAt := by
    show v.schedule.activeScheduledForAt.getD _ = request.scheduledForAt
    rw [h.scheduledForAt]
    rfl
  lag := h.lag
  missed := h.missed
  outcome := h.done outcome houtcome

theorem forall₂_mem {α β : Type} {R : α → β → Prop} {l : List α} {m : List β}
    (h : List.Forall₂ R l m) {a : α} (ha : a ∈ l) : ∃ b ∈ m, R a b := by
  induction h with
  | nil => cases ha
  | cons hab _ ih =>
    rcases List.mem_cons.mp ha with rfl | ha
    · exact ⟨_, List.mem_cons_self, hab⟩
    · obtain ⟨b, hb, hr⟩ := ih ha
      exact ⟨b, List.mem_cons_of_mem _ hb, hr⟩

/-- Results have the poll ids of their requests. -/
theorem pollIds_results {answers : List (Answer F V E)} {requests : List (Request F)}
    {results : List (ScheduledResult F V E)}
    (h : List.Forall₂ (Yields answers) requests results) :
    results.map ScheduledResult.pollId = requests.map Request.pollId := by
  induction h with
  | nil => rfl
  | cons hyields _ ih => rw [List.map_cons, List.map_cons, ih, hyields.pollId]

theorem Orderly.resultIds {v : View F V E} (h : Orderly v) :
    (v.results.map ScheduledResult.pollId).Nodup := by
  obtain ⟨done, unserved, hrequests, hserved, -⟩ := h.served
  have hids := h.ids
  rw [hrequests, List.map_append] at hids
  rw [pollIds_results hserved]
  exact (List.nodup_append.mp hids).1

/-- At most one result is on its way. -/
theorem Orderly.one {v : View F V E} (h : Orderly v) : (v.queued ++ v.ready).length ≤ 1 := by
  cases h.waiting with
  | idle _ hqueued hready =>
    rw [hqueued, hready]
    exact Nat.zero_le 1
  | pending _ _ _ hone => exact hone

/-! ### Steps of a view -/

/-- Only the deadlines and the counters of a schedule change. -/
theorem Orderly.congr {v : View F V E} (h : Orderly v) {schedule : FeedSchedule V E}
    (hfuture : schedule.future = v.schedule.future)
    (hpollId : schedule.activePollId = v.schedule.activePollId)
    (hat : schedule.activeScheduledForAt = v.schedule.activeScheduledForAt)
    (hlag : schedule.activeSchedulerLagMs = v.schedule.activeSchedulerLagMs)
    (hmissed : schedule.activeMissedBeforeRequest = v.schedule.activeMissedBeforeRequest)
    (hpending : schedule.resultPending = v.schedule.resultPending)
    (hid : schedule.pendingPollId = v.schedule.pendingPollId) :
    Orderly { v with schedule := schedule } := by
  obtain ⟨done, unserved, hrequests, hserved, hunserved⟩ := h.served
  refine ⟨h.ids, h.answered, h.once, ⟨done, unserved, hrequests, hserved, ?_⟩, ?_⟩
  · cases hunserved with
    | idle hnone => exact Unserved.idle (hfuture.trans hnone)
    | active ha =>
      exact Unserved.active ⟨hfuture.trans ha.held, ha.same, hpollId.trans ha.pollId,
        hat.trans ha.scheduledForAt, hlag.trans ha.lag, hmissed.trans ha.missed, ha.running,
        ha.done⟩
  · cases h.waiting with
    | idle hp hq hr => exact Waiting.idle (hpending.trans hp) hq hr
    | pending hp hr hi ho => exact Waiting.pending (hpending.trans hp) hr (hid.trans hi) ho

/-- **A completed request leaves its schedule**, when the result before it was acknowledged. -/
theorem Orderly.take {v : View F V E} (h : Orderly v) (hready : v.ready = []) (now : ℚ)
    (reading : Reading) (feed : F) : Orderly (v.take utcIso now reading feed) := by
  have hsame : Orderly { v with schedule := v.schedule, ready := [] } := by
    rw [← hready]
    exact h
  unfold View.take takeResult
  cases hfuture : v.schedule.future with
  | none => exact hsame
  | some future =>
    dsimp only
    cases houtcome : future.outcome with
    | none => exact hsame
    | some outcome =>
      cases hpending : v.schedule.resultPending with
      | true => exact hsame
      | false =>
        dsimp only
        obtain ⟨done, unserved, hrequests, hserved, hunserved⟩ := h.served
        cases hunserved with
        | idle hnone =>
          rw [hnone] at hfuture
          cases hfuture
        | @active future' request ha =>
          have heq : future' = future := Option.some.inj (ha.held.symm.trans hfuture)
          rw [heq] at ha
          have hqueued : v.queued = [] := by
            cases h.waiting with
            | idle _ hq _ => exact hq
            | pending hp _ _ _ =>
              rw [hp] at hpending
              cases hpending
          have hyields := ha.yields utcIso houtcome reading feed
          have hserved' := List.rel_append hserved (List.Forall₂.cons hyields List.Forall₂.nil)
          refine ⟨h.ids, h.answered, h.once, ⟨done ++ [request], none, ?_, ?_, ?_⟩, ?_⟩
          · rw [Option.toList_none, List.append_nil]
            exact hrequests
          · unfold View.results at hserved' ⊢
            rw [hqueued, hready, List.append_nil, List.append_nil] at hserved'
            dsimp only [Option.toList_some]
            rw [hqueued, List.nil_append]
            exact hserved'
          · exact Unserved.idle rfl
          · have hresults : v.delivered ++ (v.queued ++
                [scheduledResult utcIso reading feed outcome v.schedule]) =
                v.delivered ++ [scheduledResult utcIso reading feed outcome v.schedule] := by
              rw [hqueued, List.nil_append]
            refine Waiting.pending rfl hresults rfl ?_
            dsimp only [Option.toList_some]
            rw [hqueued]
            exact le_refl 1

/-- **A request** with a poll id of its own. -/
theorem Orderly.submit {v : View F V E} (h : Orderly v) (accepting : Bool) (now : ℚ)
    {reading : Reading} (feed : F)
    (hfresh : ∀ request ∈ v.requests, request.pollId ≠ reading.pollId) :
    Orderly (v.submit utcIso accepting now reading feed) := by
  have hnothing : Orderly { v with requests := v.requests ++ [] } := by
    rw [List.append_nil]
    exact h
  unfold View.submit
  cases accepting with
  | false =>
    rw [submitDue_stopped, Option.toList_none]
    exact hnothing
  | true =>
    rw [if_pos rfl]
    rcases lt_or_ge now v.schedule.nextDeadline with hnow | hnow
    · rw [advance_early utcIso reading hnow, submitDue_early utcIso reading feed hnow, Option.toList_none]
      exact hnothing
    · cases hfuture : v.schedule.future.isNone with
      | false =>
        have hbusy : v.schedule.future.isSome = true := by
          rwa [Option.isNone_eq_false_iff] at hfuture
        rw [advance_busy utcIso reading hnow hbusy, submitDue_busy utcIso reading feed hbusy, Option.toList_none]
        exact hnothing.congr rfl rfl rfl rfl rfl rfl rfl
      | true =>
        have hfree := advance_free utcIso reading hnow hfuture
        have hrequest := submitDue_free utcIso reading feed hnow hfuture
        rw [hrequest, Option.toList_some]
        obtain ⟨done, unserved, hrequests, hserved, hunserved⟩ := h.served
        have hnone := Option.isNone_iff_eq_none.mp hfuture
        cases hunserved with
        | active ha =>
          rw [ha.held] at hnone
          cases hnone
        | idle _ =>
          rw [Option.toList_none, List.append_nil] at hrequests
          refine ⟨?_, ?_, h.once, ⟨done, some (requestOf utcIso now reading feed v.schedule), ?_,
            hserved, Unserved.active (show Active _ { pollId := reading.pollId } _ from ?_)⟩, ?_⟩
          · rw [List.map_append, List.nodup_append]
            refine ⟨h.ids, List.nodup_singleton _, ?_⟩
            intro id hid other hother heq
            obtain ⟨request, hrequest, rfl⟩ := List.mem_map.mp hid
            rw [List.mem_singleton.mp hother] at heq
            exact hfresh request hrequest heq
          · intro answer hanswer
            obtain ⟨request, hrequest, hid⟩ := h.answered answer hanswer
            exact ⟨request, List.mem_append_left _ hrequest, hid⟩
          · rw [hrequests]
            rfl
          · refine ⟨?_, rfl, ?_, ?_, rfl, rfl, fun _ answer hanswer heq => ?_, ?_⟩
            · show (advance utcIso now reading v.schedule).future = _
              rw [hfree]
              rfl
            · show (advance utcIso now reading v.schedule).activePollId = _
              rw [hfree]
              rfl
            · show (advance utcIso now reading v.schedule).activeScheduledForAt = _
              unfold requestOf
              rw [hfree]
              rfl
            · obtain ⟨request, hrequest, hid⟩ := h.answered answer hanswer
              exact hfresh request hrequest (hid.trans heq)
            · intro outcome houtcome
              cases houtcome
          · rw [hfree]
            cases h.waiting with
            | idle hp hq hr =>
              refine Waiting.idle ?_ hq hr
              exact (resultPending_coalesce _ _ _).trans hp
            | pending hp hr hi ho =>
              refine Waiting.pending ?_ hr ?_ ho
              · exact (resultPending_coalesce _ _ _).trans hp
              · exact (pendingPollId_coalesce _ _ _).trans hi

/-- **A put** moves the result into the queue. -/
theorem Orderly.put {v : View F V E} (h : Orderly v) {item : ScheduledResult F V E}
    {items : List (ScheduledResult F V E)} (hready : v.ready = item :: items) :
    Orderly { v with queued := v.queued ++ [item], ready := items } := by
  have hresults : View.results { v with queued := v.queued ++ [item], ready := items } =
      v.results := by
    unfold View.results
    dsimp only
    rw [hready, List.append_assoc]
    rfl
  obtain ⟨done, unserved, hrequests, hserved, hunserved⟩ := h.served
  refine ⟨h.ids, h.answered, h.once, ⟨done, unserved, hrequests, hresults ▸ hserved, ?_⟩, ?_⟩
  · cases hunserved with
    | idle hnone => exact Unserved.idle hnone
    | active ha =>
      exact Unserved.active ⟨ha.held, ha.same, ha.pollId, ha.scheduledForAt, ha.lag, ha.missed,
        ha.running, ha.done⟩
  · cases h.waiting with
    | idle _ _ hr =>
      rw [hr] at hready
      cases hready
    | pending hp hr hi ho =>
      refine Waiting.pending hp (hresults.trans hr) hi ?_
      dsimp only
      rw [List.append_assoc]
      rw [hready] at ho
      exact ho

/-- **A get** takes the result out of the queue. -/
theorem Orderly.get {v : View F V E} (h : Orderly v) {item : ScheduledResult F V E}
    {items : List (ScheduledResult F V E)} (hqueued : v.queued = item :: items) :
    Orderly { v with delivered := v.delivered ++ [item], queued := items } := by
  have hresults : View.results { v with delivered := v.delivered ++ [item], queued := items } =
      v.results := by
    unfold View.results
    dsimp only
    rw [hqueued, List.append_assoc]
    rfl
  obtain ⟨done, unserved, hrequests, hserved, hunserved⟩ := h.served
  refine ⟨h.ids, h.answered, h.once, ⟨done, unserved, hrequests, hresults ▸ hserved, ?_⟩, ?_⟩
  · cases hunserved with
    | idle hnone => exact Unserved.idle hnone
    | active ha =>
      exact Unserved.active ⟨ha.held, ha.same, ha.pollId, ha.scheduledForAt, ha.lag, ha.missed,
        ha.running, ha.done⟩
  · cases h.waiting with
    | idle _ hq _ =>
      rw [hq] at hqueued
      cases hqueued
    | pending hp hr hi ho =>
      refine Waiting.pending hp (hresults.trans hr) hi ?_
      rw [hqueued, List.cons_append, List.length_cons] at ho
      show (items ++ v.ready).length ≤ 1
      omega

/-- **A worker is done.** -/
theorem Orderly.complete {v : View F V E} (h : Orderly v) {feed : F} {future : Future V E}
    (hfuture : v.schedule.future = some future) (hrunning : future.outcome = none)
    (outcome : Outcome V E) :
    Orderly { v with
      schedule := { v.schedule with
        future := v.schedule.future.map fun f => { f with outcome := some outcome } }
      answers := v.answers ++ [⟨feed, future.pollId, outcome⟩] } := by
  have hmore : ∀ a ∈ v.answers, a ∈ v.answers ++ [⟨feed, future.pollId, outcome⟩] :=
    fun a ha => List.mem_append_left _ ha
  obtain ⟨done, unserved, hrequests, hserved, hunserved⟩ := h.served
  cases hunserved with
  | idle hnone =>
    rw [hnone] at hfuture
    cases hfuture
  | @active future' request ha =>
    have heq : future' = future := Option.some.inj (ha.held.symm.trans hfuture)
    rw [heq] at ha
    have hnew := List.mem_append_right v.answers
      (List.mem_singleton_self (⟨feed, future.pollId, outcome⟩ : Answer F V E))
    refine ⟨h.ids, ?_, ?_, ⟨done, some request, hrequests, ?_,
      Unserved.active (show Active _ { future with outcome := some outcome } _ from ?_)⟩, ?_⟩
    · intro answer hanswer
      rcases List.mem_append.mp hanswer with hanswer | hanswer
      · exact h.answered answer hanswer
      · obtain rfl := List.mem_singleton.mp hanswer
        refine ⟨request, ?_, ha.same.symm⟩
        rw [hrequests]
        exact List.mem_append_right _ (List.mem_singleton_self _)
    · rw [List.map_append, List.nodup_append]
      refine ⟨h.once, List.nodup_singleton _, ?_⟩
      intro id hid other hother hsame
      obtain ⟨answer, hanswer, rfl⟩ := List.mem_map.mp hid
      rw [List.mem_singleton.mp hother] at hsame
      exact ha.running hrunning answer hanswer (hsame.trans ha.same)
    · exact hserved.imp fun request result hyields => hyields.more hmore
    · refine ⟨?_, ha.same, ha.pollId, ha.scheduledForAt, ha.lag, ha.missed, ?_, ?_⟩
      · show v.schedule.future.map _ = _
        rw [hfuture]
        rfl
      · intro hnone
        cases hnone
      · intro other hother
        obtain rfl := Option.some.inj hother
        exact ⟨_, hnew, ha.same, rfl⟩
    · cases h.waiting with
      | idle hp hq hr => exact Waiting.idle hp hq hr
      | pending hp hr hi ho => exact Waiting.pending hp hr hi ho

/-- **An acknowledgement** of a result that `get` returned: it is the one the schedule waits for, or
nothing happens. -/
theorem Orderly.acknowledge {v : View F V E} (h : Orderly v) {item : ScheduledResult F V E}
    (hitem : item ∈ v.delivered) (hid : v.schedule.pendingPollId = some item.pollId)
    (hpending : v.schedule.resultPending = true) :
    Orderly { v with
      schedule := { v.schedule with resultPending := false, pendingPollId := none } } := by
  have hgone : v.queued ++ v.ready = [] := by
    cases h.waiting with
    | idle hp _ _ =>
      rw [hp] at hpending
      cases hpending
    | @pending earlier last _ hresults hlast hone =>
      cases hwaiting : v.queued ++ v.ready with
      | nil => rfl
      | cons first rest =>
        rw [hwaiting, List.length_cons] at hone
        obtain rfl := List.length_eq_zero_iff.mp (by omega : rest.length = 0)
        have hids := h.resultIds
        unfold View.results at hresults hids
        rw [hwaiting] at hresults hids
        obtain ⟨-, hfirst⟩ := List.append_inj' hresults rfl
        obtain rfl := List.singleton_inj.mp hfirst
        have hsame : first.pollId = item.pollId := Option.some.inj (hlast.symm.trans hid)
        rw [List.map_append, List.nodup_append] at hids
        exact absurd hsame.symm (hids.2.2 item.pollId (List.mem_map_of_mem hitem) first.pollId
          (List.mem_singleton_self _))
  obtain ⟨done, unserved, hrequests, hserved, hunserved⟩ := h.served
  refine ⟨h.ids, h.answered, h.once, ⟨done, unserved, hrequests, hserved, ?_⟩, ?_⟩
  · cases hunserved with
    | idle hnone => exact Unserved.idle hnone
    | active ha =>
      exact Unserved.active ⟨ha.held, ha.same, ha.pollId, ha.scheduledForAt, ha.lag, ha.missed,
        ha.running, ha.done⟩
  · obtain ⟨hqueued, hready⟩ := List.append_eq_nil_iff.mp hgone
    exact Waiting.idle rfl hqueued hready

/-! ### Views of a system -/

variable [DecidableEq F] {feeds : Feeds F}

/-- A step moves every view by itself. -/
theorem view_locked (now : ℚ) (readings : F → Reading) (s : Sys F V E) (feed : F) :
    view (s.locked utcIso feeds now readings) feed =
      ((view s feed).take utcIso now (readings feed) feed).submit utcIso s.scheduler.accepting now
        (readings feed) feed := by
  have hrequests := requests_locked utcIso feeds now readings s feed
  have hready := ready_locked utcIso feeds now readings s feed
  unfold view View.submit View.take
  rw [hrequests, hready]
  rfl

theorem ofFeed_append (feed : F) (a b : List (ScheduledResult F V E)) :
    ofFeed feed (a ++ b) = ofFeed feed a ++ ofFeed feed b := List.filter_append ..

theorem ofFeed_cons_self (item : ScheduledResult F V E) (items : List (ScheduledResult F V E)) :
    ofFeed item.feedName (item :: items) = item :: ofFeed item.feedName items :=
  List.filter_cons_of_pos (by simp)

theorem ofFeed_cons_of_ne {feed : F} {item : ScheduledResult F V E}
    (h : feed ≠ item.feedName) (items : List (ScheduledResult F V E)) :
    ofFeed feed (item :: items) = ofFeed feed items :=
  List.filter_cons_of_neg (by simpa using Ne.symm h)

theorem schedules_update_of_ne {s : Scheduler F V E} {feed other : F}
    {state : FeedSchedule V E} (h : other ≠ feed) :
    (s.update feed state).schedules other = s.schedules other := Function.update_of_ne h ..

theorem schedules_update_self {s : Scheduler F V E} {feed : F} {state : FeedSchedule V E} :
    (s.update feed state).schedules feed = state := Function.update_self ..

omit [DecidableEq F] in
theorem putNowait_eq_some {item : ScheduledResult F V E} {s t : Scheduler F V E}
    (h : putNowait feeds item s = some t) : t = { s with results := s.results ++ [item] } := by
  unfold putNowait at h
  split at h
  · cases h
  · exact (Option.some.inj h).symm

omit [DecidableEq F] in
theorem get_eq_some {item : ScheduledResult F V E} {s t : Scheduler F V E}
    (h : RealtimeScheduler.get s = some (item, t)) :
    s.results = item :: t.results ∧ t = { s with results := t.results } := by
  unfold RealtimeScheduler.get at h
  split at h
  · cases h
  · rename_i first rest hresults
    obtain ⟨rfl, rfl⟩ := Prod.mk.inj (Option.some.inj h)
    exact ⟨hresults, rfl⟩

/-- **A step about one feed leaves the others alone.** -/
theorem view_of_ne {about feed : F} {s t : Sys F V E} (h : Step utcIso feeds (some about) s t)
    (hne : feed ≠ about) : view t feed = view s feed := by
  cases h with
  | put ready put =>
    obtain rfl := putNowait_eq_some put
    unfold view
    dsimp only
    rw [ofFeed_append, ofFeed_cons_of_ne hne, ready, ofFeed_cons_of_ne hne]
    exact congrArg (View.mk _ _ _ _ · _) (List.append_nil _)
  | complete _ outcome active running =>
    unfold view
    dsimp only
    rw [List.filter_append, List.filter_cons_of_neg (by simpa using Ne.symm hne), List.filter_nil,
      List.append_nil]
    refine congrArg (View.mk · _ _ _ _ _) ?_
    exact schedules_update_of_ne hne
  | get got =>
    obtain ⟨hresults, ht⟩ := get_eq_some got
    unfold view
    dsimp only
    rw [ofFeed_append, ofFeed_cons_of_ne hne, hresults, ofFeed_cons_of_ne hne, ht]
    exact congrArg (View.mk _ _ _ · _ _) (List.append_nil _)
  | acknowledge item obtained =>
    unfold view
    refine congrArg₂ (View.mk · _ _ _ · _) ?_ ?_
    · show (acknowledge item s.scheduler).schedules feed = s.scheduler.schedules feed
      unfold acknowledge
      dsimp only
      split
      · exact schedules_update_of_ne hne
      · rfl
    · show ofFeed feed (acknowledge item s.scheduler).results = _
      unfold acknowledge
      dsimp only
      split
      · rfl
      · rfl

/-- A poll id without a request. -/
theorem fresh_view {s : Sys F V E} {feed : F} {pollId : String} (h : Fresh s feed pollId) :
    ∀ request ∈ (view s feed).requests, request.pollId ≠ pollId := by
  intro request hrequest
  obtain ⟨hmem, hname⟩ := List.mem_filter.mp hrequest
  exact h request hmem (of_decide_eq_true hname)

/-- **One step** keeps the view of every feed in order. -/
theorem orderly_step {about : Option F} {s t : Sys F V E}
    (h : ∀ feed, Orderly (view s feed)) (hstep : Step utcIso feeds about s t) (feed : F) :
    Orderly (view t feed) := by
  have hother : ∀ g, about = some g → feed ≠ g → Orderly (view t feed) := fun g hg hne => by
    rw [hg] at hstep
    rw [view_of_ne hstep hne]
    exact h feed
  cases hstep with
  | step now readings idle fresh =>
    have hready : (view s feed).ready = [] := by
      show ofFeed feed s.ready = []
      rw [idle]
      rfl
    rw [view_locked]
    exact ((h feed).take hready now _ feed).submit s.scheduler.accepting now feed
      (fresh_view (fresh feed))
  | @put _ item items scheduler ready put =>
    by_cases hne : feed = item.feedName
    · subst hne
      obtain rfl := putNowait_eq_some put
      have hready : (view s item.feedName).ready = item :: ofFeed item.feedName items := by
        show ofFeed item.feedName s.ready = _
        rw [ready, ofFeed_cons_self]
      have horderly := (h item.feedName).put hready
      unfold view at horderly ⊢
      dsimp only at horderly ⊢
      rw [ofFeed_append, ofFeed_cons_self]
      exact horderly
    · exact hother _ rfl hne
  | @complete _ g outcome future active running =>
    by_cases hne : feed = g
    · subst hne
      have hanswers : (s.answered ++ [(⟨feed, future.pollId, outcome⟩ : Answer F V E)]).filter
          (fun answer => answer.feedName = feed) =
          (view s feed).answers ++ [⟨feed, future.pollId, outcome⟩] := by
        rw [List.filter_append, List.filter_cons_of_pos (by simp), List.filter_nil]
        rfl
      have hschedule : (complete feed outcome s.scheduler).schedules feed =
          { s.schedule feed with
            future := (s.schedule feed).future.map fun f => { f with outcome := some outcome } } :=
        schedules_update_self
      unfold view
      dsimp only
      rw [hanswers]
      unfold Sys.schedule
      dsimp only
      rw [hschedule]
      exact (h feed).complete active running outcome
    · exact hother _ rfl hne
  | @get _ item scheduler got =>
    by_cases hne : feed = item.feedName
    · subst hne
      obtain ⟨hresults, ht⟩ := get_eq_some got
      have hqueued : (view s item.feedName).queued =
          item :: ofFeed item.feedName scheduler.results := by
        show ofFeed item.feedName s.scheduler.results = _
        rw [hresults, ofFeed_cons_self]
      have horderly := (h item.feedName).get hqueued
      rw [ht]
      unfold view at horderly ⊢
      dsimp only at horderly ⊢
      rw [ofFeed_append, ofFeed_cons_self]
      exact horderly
    · exact hother _ rfl hne
  | acknowledge item obtained =>
    by_cases hne : feed = item.feedName
    · subst hne
      have hitem : item ∈ (view s item.feedName).delivered :=
        List.mem_filter.mpr ⟨obtained, decide_eq_true rfl⟩
      unfold acknowledge
      dsimp only
      split
      · rename_i hpending
        have horderly := (h item.feedName).acknowledge hitem hpending.2 hpending.1
        unfold view Sys.schedule
        dsimp only
        rw [schedules_update_self]
        exact horderly
      · exact h item.feedName
    · exact hother _ rfl hne
  | stop => exact h feed

theorem orderly_boot (intervals : F → Interval) (start : ℚ) (feed : F) :
    Orderly (view (Sys.boot intervals start : Sys F V E) feed) := by
  refine ⟨List.nodup_nil, ?_, List.nodup_nil, ⟨[], none, rfl, List.Forall₂.nil, ?_⟩, ?_⟩
  · exact fun answer h => absurd h List.not_mem_nil
  · exact Unserved.idle rfl
  · exact Waiting.idle rfl rfl rfl

/-- In every run. -/
theorem orderly_run {intervals : F → Interval} {start : ℚ} {s : Sys F V E}
    (hrun : Run utcIso feeds intervals start s) : ∀ feed, Orderly (view s feed) := by
  induction hrun with
  | refl => exact orderly_boot intervals start
  | tail _ hstep ih =>
    obtain ⟨about, hstep⟩ := hstep
    exact fun feed => orderly_step ih hstep feed

/-! ### The queue -/

/-- There is room for a result that is put. -/
theorem putNowait_ne_none {s : Sys F V E} (h : ∀ feed, Orderly (view s feed))
    {item : ScheduledResult F V E} {items : List (ScheduledResult F V E)}
    (hready : s.ready = item :: items) : putNowait feeds item s.scheduler ≠ none := by
  have hcount : ∀ feed, (ofFeed feed (s.scheduler.results ++ s.ready)).length ≤ 1 := fun feed => by
    have hone := (h feed).one
    rw [ofFeed_append]
    exact hone
  have hnodup : ((s.scheduler.results ++ s.ready).map ScheduledResult.feedName).Nodup := by
    refine List.nodup_iff_count_le_one.mpr fun feed => ?_
    have hlength : List.count feed ((s.scheduler.results ++ s.ready).map ScheduledResult.feedName) =
        (ofFeed feed (s.scheduler.results ++ s.ready)).length := by
      rw [List.count, List.countP_map, List.countP_eq_length_filter]
      rfl
    rw [hlength]
    exact hcount feed
  have hlength : ((s.scheduler.results ++ s.ready).map ScheduledResult.feedName).length ≤
      feeds.order.length :=
    (hnodup.subperm fun feed _ => feeds.all feed).length_le
  have hroom : s.scheduler.results.length < feeds.order.length := by
    rw [hready, List.length_map, List.length_append, List.length_cons] at hlength
    omega
  unfold putNowait
  rw [if_neg (not_le.mpr hroom)]
  exact Option.some_ne_none _

omit [DecidableEq F] in
/-- Puts into a queue with room for them. -/
theorem putAll_eq (feeds : Feeds F) (items : List (ScheduledResult F V E)) (s : Scheduler F V E)
    (h : s.results.length + items.length ≤ feeds.order.length) :
    putAll feeds items s = some { s with results := s.results ++ items } := by
  induction items generalizing s with
  | nil =>
    unfold putAll
    rw [List.append_nil]
  | cons item items ih =>
    rw [List.length_cons] at h
    have hput : putNowait feeds item s = some { s with results := s.results ++ [item] } := by
      unfold putNowait
      exact if_neg (by omega)
    have hrest := ih { s with results := s.results ++ [item] } (by
      rw [List.length_append, List.length_singleton]
      omega)
    unfold putAll
    rw [hput]
    refine hrest.trans ?_
    rw [List.append_assoc]
    rfl

/-- The schedules when the queue has been drained once. -/
def released (s : Scheduler F V E) : Scheduler F V E where
  results := []
  accepting := false
  schedules feed := { s.schedules feed with resultPending := false, pendingPollId := none }

omit [DecidableEq F] in
theorem stopAndDrain_eq (utcIso : ℚ → String) (feeds : Feeds F) (now : ℚ) (readings : F → Reading) (s : Scheduler F V E) :
    ∃ t, stopAndDrain utcIso feeds now readings s =
      some (s.results ++ (stepLocked utcIso feeds now readings (released s)).2, t) := by
  have hlength : (stepLocked utcIso feeds now readings (released s)).2.length ≤
      feeds.order.length := List.length_filterMap_le ..
  have hput := putAll_eq feeds _ (stepLocked utcIso feeds now readings (released s)).1
    (by rw [show (stepLocked utcIso feeds now readings (released s)).1.results = [] from rfl]
        simpa using hlength)
  refine ⟨{ (stepLocked utcIso feeds now readings (released s)).1 with results := [] }, ?_⟩
  have hstep : step utcIso feeds now readings (released s) = _ := hput
  unfold stopAndDrain
  dsimp only
  show (step utcIso feeds now readings (released s)).bind _ = _
  rw [hstep]
  rfl

omit [DecidableEq F] in
/-- **The drain returns what is left**: with it, every request of a feed has its result, in
order. -/
theorem Orderly.drained (utcIso : ℚ → String) {v : View F V E} (h : Orderly v) (hready : v.ready = [])
    (hterminal : ∀ future, v.schedule.future = some future → future.outcome.isSome = true)
    (now : ℚ) (reading : Reading) (feed : F) :
    List.Forall₂ (Yields v.answers) v.requests (v.delivered ++ (v.queued ++
      (takeResult utcIso now reading feed
        { v.schedule with resultPending := false, pendingPollId := none }).2.toList)) := by
  obtain ⟨done, unserved, hrequests, hserved, hunserved⟩ := h.served
  unfold View.results at hserved
  rw [hready, List.append_nil] at hserved
  cases hunserved with
  | idle hnone =>
    have hresult : (takeResult utcIso now reading feed
        { v.schedule with resultPending := false, pendingPollId := none }).2 = none := by
      unfold takeResult
      dsimp only
      rw [hnone]
    rw [hresult, hrequests, Option.toList_none, Option.toList_none, List.append_nil,
      List.append_nil]
    exact hserved
  | @active future request ha =>
    obtain ⟨outcome, houtcome⟩ := Option.isSome_iff_exists.mp (hterminal future ha.held)
    have hresult : (takeResult utcIso now reading feed
        { v.schedule with resultPending := false, pendingPollId := none }).2 =
        some (scheduledResult utcIso reading feed outcome v.schedule) := by
      unfold takeResult
      dsimp only
      rw [ha.held]
      dsimp only
      rw [houtcome]
      rfl
    rw [hresult, hrequests, Option.toList_some, Option.toList_some, ← List.append_assoc]
    exact List.rel_append hserved
      (List.Forall₂.cons (ha.yields utcIso houtcome reading feed) List.Forall₂.nil)

/-! ### Safety -/

/-- A request its worker has not answered. -/
def Unanswered (v : View F V E) (request : Request F) : Prop :=
  ∀ answer ∈ v.answers, answer.pollId ≠ request.pollId

omit [DecidableEq F] in
/-- Two active requests of a feed are the same. -/
theorem Orderly.active_unique {v : View F V E} (h : Orderly v) {q q' : Request F}
    (hq : q ∈ v.requests) (hq' : q' ∈ v.requests) (hnot : Unanswered v q)
    (hnot' : Unanswered v q') : q = q' := by
  obtain ⟨done, unserved, hrequests, hserved, -⟩ := h.served
  have hlast : ∀ request ∈ v.requests, Unanswered v request → unserved = some request := by
    intro request hrequest hun
    rw [hrequests] at hrequest
    rcases List.mem_append.mp hrequest with hdone | hactive
    · obtain ⟨result, -, hyields⟩ := forall₂_mem hserved hdone
      obtain ⟨answer, hanswer, hid, -⟩ := hyields.outcome
      exact absurd hid (hun answer hanswer)
    · exact Option.mem_toList.mp hactive
  exact Option.some.inj ((hlast q hq hnot).symm.trans (hlast q' hq' hnot'))

/-- **A safe scheduler.** -/
structure Safe (utcIso : ℚ → String) (feeds : Feeds F) (s : Sys F V E) : Prop where
  /-- Each feed has at most one active request. -/
  active : ∀ feed, ∀ q ∈ s.requests feed, ∀ q' ∈ s.requests feed,
    Unanswered (view s feed) q → Unanswered (view s feed) q' → q = q'
  /-- Each feed has at most one result in the queue. -/
  queued : ∀ feed, (ofFeed feed s.scheduler.results).length ≤ 1
  /-- `put_nowait` does not raise. -/
  room : ∀ item items, s.ready = item :: items → putNowait feeds item s.scheduler ≠ none
  /-- The results so far are those of the first requests, in order. -/
  order : ∀ feed, ∃ done, ∃ unserved : Option (Request F),
    s.requests feed = done ++ unserved.toList ∧
    List.Forall₂ (Yields (view s feed).answers) done (view s feed).results
  /-- Poll ids name requests, and each is answered once. -/
  ids : ∀ feed, ((s.requests feed).map Request.pollId).Nodup ∧
    ((view s feed).answers.map Answer.pollId).Nodup
  /-- A final drain gives every request that is left its result. -/
  drain : s.ready = [] →
    (∀ feed future, (s.schedule feed).future = some future → future.outcome.isSome = true) →
    ∀ now readings, ∃ drained t, stopAndDrain utcIso feeds now readings s.scheduler =
        some (drained, t) ∧
      ∀ feed, List.Forall₂ (Yields (view s feed).answers) (s.requests feed)
        (ofFeed feed (s.delivered ++ drained))
  /-- A step about one feed leaves the others alone; one about all moves each by itself. -/
  apart : ∀ about t, Step utcIso feeds about s t → ∀ feed, about ≠ some feed →
    view t feed = view s feed ∨ ∃ now reading, view t feed =
      ((view s feed).take utcIso now reading feed).submit utcIso s.scheduler.accepting now reading
        feed

/-- **The scheduler is safe** in every run. -/
theorem scheduler_safe {intervals : F → Interval} {start : ℚ} {s : Sys F V E}
    (hrun : Run utcIso feeds intervals start s) : Safe utcIso feeds s := by
  have horderly := orderly_run hrun
  refine ⟨fun feed q hq q' hq' => (horderly feed).active_unique hq hq', fun feed => ?_,
    fun item items hready => putNowait_ne_none horderly hready, fun feed => ?_,
    fun feed => ⟨(horderly feed).ids, (horderly feed).once⟩, ?_, ?_⟩
  · have hone := (horderly feed).one
    rw [List.length_append] at hone
    exact (Nat.le_add_right _ _).trans hone
  · obtain ⟨done, unserved, hrequests, hserved, -⟩ := (horderly feed).served
    exact ⟨done, unserved, hrequests, hserved⟩
  · intro hready hterminal now readings
    obtain ⟨t, ht⟩ := stopAndDrain_eq utcIso feeds now readings s.scheduler
    refine ⟨_, t, ht, fun feed => ?_⟩
    have hnothing : (view s feed).ready = [] := by
      show ofFeed feed s.ready = []
      rw [hready]
      rfl
    have hdrained := (horderly feed).drained utcIso hnothing (hterminal feed) now
      (readings feed) feed
    have htaken : ofFeed feed (stepLocked utcIso feeds now readings (released s.scheduler)).2 =
        (takeResult utcIso now (readings feed) feed
          ((released s.scheduler).schedules feed)).2.toList :=
      filter_filterMap feeds ScheduledResult.feedName _
        (fun _ _ h => feedName_takeResult utcIso h) feed
    rw [ofFeed_append, ofFeed_append, htaken]
    exact hdrained
  · intro about t hstep feed hne
    cases about with
    | some g => exact Or.inl (view_of_ne hstep fun heq => hne (heq ▸ rfl))
    | none =>
      cases hstep with
      | step now readings idle fresh =>
        exact Or.inr ⟨now, readings feed, view_locked now readings s feed⟩
      | stop => exact Or.inl rfl

/-- A scheduler of one feed that has submitted, and whose worker has raised. -/
theorem scheduler_safe_raised :
    let feeds : Feeds Unit := ⟨[()], List.nodup_singleton (), fun _ => List.mem_singleton_self ()⟩
    let utcIso : ℚ → String := fun _ => "2026-01-02T00:00:00+00:00"
    let boot : Sys Unit Unit String := Sys.boot (fun _ => ⟨10, by norm_num⟩) 0
    let s := boot.locked utcIso feeds 5 fun _ => ⟨0, "a"⟩
    Safe utcIso feeds { s with
      scheduler := complete () (.error "timeout") s.scheduler
      answered := s.answered ++ [⟨(), "a", .error "timeout"⟩] } := by
  intro feeds utcIso boot s
  have hstep : Step utcIso feeds none boot s := Step.step 5 _ rfl fun _ _ h => by cases h
  have hdue : (s.schedule ()).future = some { pollId := "a" } := by
    have hlate : (boot.schedule ()).nextDeadline ≤ 5 := by
      show (0 : ℚ) ≤ 5
      norm_num
    show (advance utcIso 5 ⟨0, "a"⟩ (boot.schedule ())).future = _
    rw [advance_free utcIso ⟨0, "a"⟩ hlate rfl]
    rfl
  have hcomplete : Step utcIso feeds (some ()) s { s with
      scheduler := complete () (.error "timeout") s.scheduler
      answered := s.answered ++ [⟨(), "a", .error "timeout"⟩] } :=
    Step.complete () (.error "timeout") hdue rfl
  exact scheduler_safe ((Relation.ReflTransGen.refl.tail ⟨none, hstep⟩).tail ⟨_, hcomplete⟩)

end BkkCollector.Realtime.SchedulerSafety
