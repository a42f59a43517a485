import Mathlib
import BkkCollector.Realtime.SchedulerRuns

/-! # Deadlines

The deadlines of a feed lie on the grid of its interval. Every deadline that has come was served by
a request of its own or is counted as missed, and the misses are reported with the next request. -/

namespace BkkCollector.Realtime.SchedulerDeadlines

open BkkCollector.Realtime.RealtimeScheduler BkkCollector.Realtime.SchedulerRuns

variable {F V E : Type} {utcIso : ℚ → String}

/-! ### Deadlines that have come -/

/-- The grid point `index` of a feed. -/
def gridPoint (start : ℚ) (interval : Interval) (index : ℕ) : ℚ := start + index * interval.1

section Due

variable {now : ℚ} {s : FeedSchedule V E} (h : s.nextDeadline ≤ now)
include h

theorem cast_dueCount :
    (dueCount now s : ℚ) = ⌊(now - s.nextDeadline) / s.intervalSeconds.1⌋ + 1 := by
  have hpos := s.intervalSeconds.2
  have hfloor : 0 ≤ ⌊(now - s.nextDeadline) / s.intervalSeconds.1⌋ :=
    Int.floor_nonneg.mpr (div_nonneg (sub_nonneg.mpr h) hpos.le)
  have htoNat : ((dueCount now s : ℕ) : ℤ) =
      ⌊(now - s.nextDeadline) / s.intervalSeconds.1⌋ + 1 := by
    unfold dueCount
    exact Int.toNat_of_nonneg (by omega)
  exact_mod_cast htoNat

theorem one_le_dueCount : 1 ≤ dueCount now s := by
  have hfloor : 0 ≤ ⌊(now - s.nextDeadline) / s.intervalSeconds.1⌋ :=
    Int.floor_nonneg.mpr (div_nonneg (sub_nonneg.mpr h) s.intervalSeconds.2.le)
  unfold dueCount
  omega

/-- The latest deadline that has come is not after now. -/
theorem latestDue_le : latestDue now s ≤ now := by
  have hpos := s.intervalSeconds.2
  have hfloor := Int.floor_le ((now - s.nextDeadline) / s.intervalSeconds.1)
  have hmul := (le_div_iff₀ hpos).mp hfloor
  unfold latestDue
  rw [cast_dueCount h]
  linarith

/-- The next deadline after it is. -/
theorem lt_next : now < s.nextDeadline + dueCount now s * s.intervalSeconds.1 := by
  have hpos := s.intervalSeconds.2
  have hfloor := Int.lt_floor_add_one ((now - s.nextDeadline) / s.intervalSeconds.1)
  have hmul := (div_lt_iff₀ hpos).mp hfloor
  rw [cast_dueCount h]
  linarith

end Due

/-! ### The account of a feed -/

/-- The deadlines of a feed that were served or missed. -/
def accounted (s : FeedSchedule V E) : ℕ := s.totalSubmitted + s.totalMissedDeadlines

/-- **The account of a feed**: its deadlines and counters, and the requests it made. -/
structure Account (start : ℚ) (interval : Interval) (s : FeedSchedule V E)
    (requests : List (Request F)) : Prop where
  sameInterval : s.intervalSeconds = interval
  next : s.nextDeadline = gridPoint start interval (accounted s)
  submitted : requests.length = s.totalSubmitted
  missed : (requests.map Request.missedDeadlinesBeforeRequest).sum + s.missedSinceLastRequest =
    s.totalMissedDeadlines
  served : ∀ request ∈ requests, ∃ index < accounted s,
    request.deadline = gridPoint start interval index
  distinct : requests.Pairwise fun request later => request.deadline < later.deadline
  lag : ∀ request ∈ requests,
    request.schedulerLagMs = (request.time - request.deadline) * 1000 ∧
      0 ≤ request.schedulerLagMs ∧ request.schedulerLagMs < interval.1 * 1000

theorem gridPoint_lt {start : ℚ} {interval : Interval} {i j : ℕ} (h : i < j) :
    gridPoint start interval i < gridPoint start interval j := by
  have hcast : (i : ℚ) < j := by exact_mod_cast h
  have hmul := mul_lt_mul_of_pos_right hcast interval.2
  unfold gridPoint
  linarith

/-- The account depends on the deadlines and the counters only. -/
theorem Account.congr {start : ℚ} {interval : Interval} {s t : FeedSchedule V E}
    {requests : List (Request F)} (h : Account start interval s requests)
    (hinterval : t.intervalSeconds = s.intervalSeconds) (hnext : t.nextDeadline = s.nextDeadline)
    (hsubmitted : t.totalSubmitted = s.totalSubmitted)
    (hmissed : t.totalMissedDeadlines = s.totalMissedDeadlines)
    (hsince : t.missedSinceLastRequest = s.missedSinceLastRequest) :
    Account start interval t requests := by
  have haccounted : accounted t = accounted s := by
    unfold accounted
    rw [hsubmitted, hmissed]
  exact
    { sameInterval := hinterval.trans h.sameInterval
      next := by rw [hnext, haccounted, h.next]
      submitted := h.submitted.trans hsubmitted.symm
      missed := by rw [hsince, hmissed, h.missed]
      served := by rw [haccounted]; exact h.served
      distinct := h.distinct
      lag := h.lag }

/-- The first loop of a step leaves the account alone. -/
theorem Account.takeResult (utcIso : ℚ → String) {start : ℚ} {interval : Interval} {s : FeedSchedule V E}
    {requests : List (Request F)} (h : Account start interval s requests) (now : ℚ)
    (reading : Reading) (feed : F) :
    Account start interval (takeResult utcIso now reading feed s).1 requests := by
  unfold RealtimeScheduler.takeResult
  split
  · exact h
  · split
    · exact h.congr rfl rfl rfl rfl rfl
    · exact h

theorem gridPoint_add (start : ℚ) (interval : Interval) (index count : ℕ) :
    gridPoint start interval (index + count) =
      gridPoint start interval index + count * interval.1 := by
  unfold gridPoint
  push_cast
  ring

/-- Deadlines pass while a request is active. -/
theorem Account.miss {start : ℚ} {interval : Interval} {s : FeedSchedule V E}
    {requests : List (Request F)} (h : Account start interval s requests) (now : ℚ) :
    Account start interval ((s.pass now).miss now (dueCount now s)) requests where
  sameInterval := h.sameInterval
  next := by
    show s.nextDeadline + dueCount now s * s.intervalSeconds.1 =
      gridPoint start interval (s.totalSubmitted + (s.totalMissedDeadlines + dueCount now s))
    rw [← Nat.add_assoc, gridPoint_add, h.next, h.sameInterval]
    rfl
  submitted := h.submitted
  missed := by
    show _ + (s.missedSinceLastRequest + dueCount now s) = s.totalMissedDeadlines + dueCount now s
    rw [← Nat.add_assoc, h.missed]
  served := fun request hrequest => by
    obtain ⟨index, hindex, hdeadline⟩ := h.served request hrequest
    have hmore : accounted s ≤ s.totalSubmitted + (s.totalMissedDeadlines + dueCount now s) := by
      unfold accounted
      omega
    exact ⟨index, lt_of_lt_of_le hindex hmore, hdeadline⟩
  distinct := h.distinct
  lag := h.lag

/-- **A request** for the latest deadline that has come. -/
theorem Account.submit {start : ℚ} {interval : Interval} {s : FeedSchedule V E}
    {requests : List (Request F)} (h : Account start interval s requests) {now : ℚ}
    (hnow : s.nextDeadline ≤ now) {request : Request F}
    (hmissed : request.missedDeadlinesBeforeRequest =
      s.missedSinceLastRequest + (dueCount now s - 1))
    (hdeadline : request.deadline = latestDue now s) (htime : request.time = now)
    (hlag : request.schedulerLagMs = lagMs now s) (lag : ℚ) (pollId scheduledForAt : String) :
    Account start interval
      (((s.pass now).coalesce now (dueCount now s - 1)).submit now lag pollId scheduledForAt)
      (requests ++ [request]) := by
  have hone := one_le_dueCount hnow
  have hle := latestDue_le hnow
  have hlt := lt_next hnow
  set t := (s.pass now).coalesce now (dueCount now s - 1) with ht
  have hnext : t.nextDeadline = s.nextDeadline + dueCount now s * s.intervalSeconds.1 :=
    nextDeadline_coalesce _ _ _
  have hsubmitted : t.totalSubmitted = s.totalSubmitted := totalSubmitted_coalesce _ _ _
  have htotal : t.totalMissedDeadlines = s.totalMissedDeadlines + (dueCount now s - 1) :=
    totalMissedDeadlines_coalesce _ _ _
  have hindex : latestDue now s = gridPoint start interval (accounted s + (dueCount now s - 1)) := by
    have hcast : ((dueCount now s - 1 : ℕ) : ℚ) = (dueCount now s : ℚ) - 1 := by
      push_cast [hone]
      ring
    rw [gridPoint_add, hcast, ← h.next, ← h.sameInterval]
    rfl
  have haccounted : accounted (t.submit now lag pollId scheduledForAt) =
      accounted s + dueCount now s := by
    show t.totalSubmitted + 1 + t.totalMissedDeadlines = _
    rw [hsubmitted, htotal]
    unfold accounted
    omega
  refine ⟨(intervalSeconds_coalesce _ _ _).trans h.sameInterval, ?_, ?_, ?_, ?_, ?_, ?_⟩
  · show t.nextDeadline = _
    rw [haccounted, gridPoint_add, hnext, h.next, h.sameInterval]
  · show (requests ++ [request]).length = t.totalSubmitted + 1
    rw [List.length_append, h.submitted, hsubmitted]
    rfl
  · show ((requests ++ [request]).map Request.missedDeadlinesBeforeRequest).sum + 0 =
      t.totalMissedDeadlines
    have hsum := h.missed
    rw [List.map_append, List.sum_append, List.map_singleton, List.sum_singleton, hmissed]
    omega
  · intro other hother
    rw [haccounted]
    rcases List.mem_append.mp hother with hother | hother
    · obtain ⟨index, hlast, hgrid⟩ := h.served other hother
      exact ⟨index, by omega, hgrid⟩
    · obtain rfl := List.mem_singleton.mp hother
      exact ⟨accounted s + (dueCount now s - 1), by omega, hdeadline.trans hindex⟩
  · refine List.pairwise_append.mpr ⟨h.distinct, List.pairwise_singleton _ _, ?_⟩
    intro other hother later hlater
    obtain rfl := List.mem_singleton.mp hlater
    obtain ⟨index, hlast, hgrid⟩ := h.served other hother
    rw [hgrid, hdeadline, hindex]
    exact gridPoint_lt (by omega)
  · intro other hother
    rcases List.mem_append.mp hother with hother | hother
    · exact h.lag other hother
    · obtain rfl := List.mem_singleton.mp hother
      have hnonneg : 0 ≤ now - latestDue now s := sub_nonneg.mpr hle
      have hshort : now - latestDue now s < interval.1 := by
        rw [← h.sameInterval]
        unfold latestDue
        linarith
      unfold lagMs at hlag
      rw [max_eq_right hnonneg] at hlag
      rw [hlag, htime, hdeadline]
      exact ⟨rfl, by linarith, by linarith⟩

/-- **A step of a feed**: deadlines that have come are served or missed. -/
theorem Account.step (utcIso : ℚ → String) {start : ℚ} {interval : Interval} {s : FeedSchedule V E}
    {requests : List (Request F)} (h : Account start interval s requests) (accepting : Bool)
    (now : ℚ) (reading : Reading) (feed : F) :
    Account start interval (stepFeed utcIso accepting now reading feed s)
      (requests ++ (submission utcIso accepting now reading feed s).toList) ∧
    (accepting = true → now < (stepFeed utcIso accepting now reading feed s).nextDeadline) := by
  have htaken := h.takeResult utcIso now reading feed
  unfold stepFeed submission
  generalize (RealtimeScheduler.takeResult utcIso now reading feed s).1 = t at htaken ⊢
  dsimp only
  cases accepting with
  | false =>
    rw [submitDue_stopped, Option.toList_none, List.append_nil]
    exact ⟨htaken, fun h => absurd h Bool.false_ne_true⟩
  | true =>
    rw [if_pos rfl]
    rcases lt_or_ge now t.nextDeadline with hnow | hnow
    · rw [advance_early utcIso reading hnow, submitDue_early utcIso reading feed hnow, Option.toList_none, List.append_nil]
      exact ⟨htaken, fun _ => hnow⟩
    · cases hfuture : t.future.isNone with
      | false =>
        have hbusy : t.future.isSome = true := by
          rwa [Option.isNone_eq_false_iff] at hfuture
        rw [advance_busy utcIso reading hnow hbusy, submitDue_busy utcIso reading feed hbusy, Option.toList_none, List.append_nil]
        exact ⟨htaken.miss now, fun _ => lt_next hnow⟩
      | true =>
        have hfree := advance_free utcIso reading hnow hfuture
        rw [submitDue_free utcIso reading feed hnow hfuture, Option.toList_some, hfree]
        refine ⟨htaken.submit hnow ?_ rfl rfl ?_ _ _ _, fun _ => ?_⟩
        · show (advance utcIso now reading t).activeMissedBeforeRequest = _
          rw [hfree]
          exact missedSinceLastRequest_coalesce _ _ _
        · show (advance utcIso now reading t).activeSchedulerLagMs = _
          rw [hfree]
          rfl
        · show now < ((t.pass now).coalesce now (dueCount now t - 1)).nextDeadline
          rw [nextDeadline_coalesce]
          exact lt_next hnow

/-! ### Runs -/

variable [DecidableEq F]

/-- The accounts of all feeds. -/
def Accounts (intervals : F → Interval) (start : ℚ) (s : Sys F V E) : Prop :=
  ∀ feed, Account start (intervals feed) (s.schedule feed) (s.requests feed)

/-- A change that leaves the deadlines and the counters of a feed alone. -/
structure Untouched (s t : FeedSchedule V E) : Prop where
  interval : t.intervalSeconds = s.intervalSeconds
  next : t.nextDeadline = s.nextDeadline
  submitted : t.totalSubmitted = s.totalSubmitted
  missed : t.totalMissedDeadlines = s.totalMissedDeadlines
  since : t.missedSinceLastRequest = s.missedSinceLastRequest

omit [DecidableEq F] in
theorem Untouched.refl (s : FeedSchedule V E) : Untouched s s := ⟨rfl, rfl, rfl, rfl, rfl⟩

/-- Another schedule for one of the feeds. -/
theorem untouched_update {s : Scheduler F V E} {feed : F} {state : FeedSchedule V E}
    (h : Untouched (s.schedules feed) state) (other : F) :
    Untouched (s.schedules other) ((s.update feed state).schedules other) := by
  show Untouched _ (Function.update s.schedules feed state other)
  by_cases heq : other = feed
  · subst heq
    rw [Function.update_self]
    exact h
  · rw [Function.update_of_ne heq]
    exact Untouched.refl _

theorem Accounts.untouched {intervals : F → Interval} {start : ℚ} {s t : Sys F V E}
    (h : Accounts intervals start s)
    (hsame : ∀ feed, Untouched (s.schedule feed) (t.schedule feed))
    (hrequests : t.submitted = s.submitted) : Accounts intervals start t := by
  intro feed
  have hfeed := hsame feed
  unfold Sys.requests
  rw [hrequests]
  exact (h feed).congr hfeed.interval hfeed.next hfeed.submitted hfeed.missed hfeed.since

/-- **One step** keeps the accounts. -/
theorem Accounts.step {feeds : Feeds F} {intervals : F → Interval} {start : ℚ} {s t : Sys F V E}
    (h : Accounts intervals start s) {about : Option F} (hstep : Step utcIso feeds about s t) :
    Accounts intervals start t := by
  cases hstep with
  | step now readings idle fresh =>
    intro feed
    rw [requests_locked]
    exact ((h feed).step utcIso s.scheduler.accepting now (readings feed) feed).1
  | put ready put =>
    refine h.untouched (fun feed => ?_) rfl
    unfold putNowait at put
    split at put
    · cases put
    · obtain rfl := Option.some.inj put
      exact Untouched.refl _
  | complete feed outcome active running =>
    exact h.untouched (untouched_update ⟨rfl, rfl, rfl, rfl, rfl⟩) rfl
  | get got =>
    refine h.untouched (fun feed => ?_) rfl
    unfold RealtimeScheduler.get at got
    split at got
    · cases got
    · obtain ⟨-, rfl⟩ := Prod.mk.inj (Option.some.inj got)
      exact Untouched.refl _
  | acknowledge item obtained =>
    refine h.untouched (fun feed => ?_) rfl
    show Untouched _ ((acknowledge item s.scheduler).schedules feed)
    unfold acknowledge
    dsimp only
    split
    · refine untouched_update (s := s.scheduler) ?_ feed
      exact ⟨rfl, rfl, rfl, rfl, rfl⟩
    · exact Untouched.refl _
  | stop => exact h

theorem Accounts.boot (intervals : F → Interval) (start : ℚ) :
    Accounts intervals start (Sys.boot intervals start : Sys F V E) := by
  intro feed
  refine ⟨rfl, ?_, rfl, rfl, ?_, List.Pairwise.nil, ?_⟩
  · show start = start + ((0 : ℕ) : ℚ) * (intervals feed).1
    rw [Nat.cast_zero, zero_mul, add_zero]
  · exact fun request h => absurd h List.not_mem_nil
  · exact fun request h => absurd h List.not_mem_nil

/-- In every run. -/
theorem Accounts.run {feeds : Feeds F} {intervals : F → Interval} {start : ℚ} {s : Sys F V E}
    (hrun : Run utcIso feeds intervals start s) : Accounts intervals start s := by
  induction hrun with
  | refl => exact Accounts.boot intervals start
  | tail _ hstep ih =>
    obtain ⟨about, hstep⟩ := hstep
    exact ih.step hstep

/-- **Every deadline is accounted once**: after a step of any run that still accepts, the next
deadline of every feed is ahead, and its account is exact. -/
theorem accounted_once {feeds : Feeds F} {intervals : F → Interval} {start : ℚ} {s : Sys F V E}
    (hrun : Run utcIso feeds intervals start s) (haccepting : s.scheduler.accepting = true)
    {now : ℚ} {readings : F → Reading} (hidle : s.ready = [])
    (hfresh : ∀ feed, Fresh s feed (readings feed).pollId) (feed : F) :
    now < ((s.locked utcIso feeds now readings).schedule feed).nextDeadline ∧
      Account start (intervals feed) ((s.locked utcIso feeds now readings).schedule feed)
        ((s.locked utcIso feeds now readings).requests feed) := by
  have hstep : Step utcIso feeds none s (s.locked utcIso feeds now readings) :=
    Step.step now readings hidle hfresh
  have haccount := Accounts.run hrun feed
  have hnext := (haccount.step utcIso s.scheduler.accepting now (readings feed) feed).2
  exact ⟨hnext haccepting, Accounts.run (hrun.tail ⟨none, hstep⟩) feed⟩

/-- A feed whose first step comes two intervals and a half late. -/
theorem accounted_once_late :
    let feeds : Feeds Unit := ⟨[()], List.nodup_singleton (), fun _ => List.mem_singleton_self ()⟩
    let intervals : Unit → Interval := fun _ => ⟨10, by norm_num⟩
    let s : Sys Unit Unit Unit := Sys.boot intervals 0
    let t := s.locked (fun _ => "2026-01-02T00:00:00+00:00") feeds 25 fun _ => ⟨0, "a"⟩
    25 < (t.schedule ()).nextDeadline ∧ Account 0 (intervals ()) (t.schedule ()) (t.requests ()) :=
  accounted_once Relation.ReflTransGen.refl rfl rfl
    (fun _ _ h => absurd h List.not_mem_nil) ()

end BkkCollector.Realtime.SchedulerDeadlines
