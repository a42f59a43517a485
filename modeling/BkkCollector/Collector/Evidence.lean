import BkkCollector.Collector.Outcomes
import BkkCollector.Realtime.DedupFlow

/-! # The evidence of a poll

A response with a payload leaves its journal event, its payload in the raw log, or a failed raw
archival behind. The raw log comes in at three places: the regular interval, a changed auxiliary
state, and the fallback of a response that lost something; the journal comes after the health
write, whose exception ends the processing.

* `notLost_iff`: when a poll leaves evidence.
-/

namespace BkkCollector.Collector.Evidence

open BkkCollector.Python.Objects BkkCollector.Config BkkCollector.Monitoring
open BkkCollector.Realtime.Dedup BkkCollector.Realtime.DedupFlow
open BkkCollector.Realtime.PresenceLog
open BkkCollector.Collector.RawArchive BkkCollector.Collector.ProcessResult
open BkkCollector.Collector.Outcomes

/-- A poll that is not lost: its journal event is appended, its payload is appended to the raw log,
or its raw archival failed. -/
def NotLost (lib : Libraries) (result : FetchResult) (payload : Bytes) (trace : Trace) : Prop :=
  Journalled lib result trace ∨ AttemptedFor lib result payload trace

/-- Events that are no evidence. -/
def Quiet : StorageEvent → Prop
  | .rawRepair .. | .rawAppend .. | .journal .. => False
  | _ => True

instance : DecidablePred Quiet
  | .rawRepair .. | .rawAppend .. | .journal .. => isFalse id
  | .runMetadata .. | .presence .. | .stage .. | .health .. => isTrue trivial

theorem not_notLost_of_quiet {lib : Libraries} {result : FetchResult} {payload : Bytes}
    {trace : Trace} (h : Adds Quiet [] trace) : ¬ NotLost lib result payload trace := by
  have hquiet : ∀ ev ∈ trace, Quiet ev := fun ev hev =>
    (h.mem hev).resolve_left (List.not_mem_nil)
  rintro (⟨event, -, hev⟩ | hev | ⟨e, hev | hev⟩)
  all_goals exact hquiet _ hev

section response

variable (c : CollectorConfig) (lib : Libraries) (plan : Plan) (s : CollectorState)
  (result : FetchResult) (payload : Bytes)

/-- Does the presence block go well for a response that parsed: its rows can be encoded, and the
append succeeds. -/
def presenceOk (parsed : Parsed) : Bool :=
  decide (result.feedName ≠ .tripupdates) ||
    parsed.feed.any fun message =>
      (s.presence.prepare lib.json parsed.rows (lib.utcDate result.responseReceivedTs)
        (parseContext result message) plan.freshId).2.isOk && plan.presence.outcome.isOk

/-- Does a response lose something before the raw fallback. -/
def lossy (parsed : Parsed) : Bool :=
  !parsed.ok || !presenceOk lib plan s result parsed || !tracksOk lib plan s result parsed

theorem presenceOk_of_step {parsed : Parsed} (hparsed : parsed.ok = true)
    {p : TripUpdatePresence} {ok : Bool} {evs : Trace}
    (h : PresenceStep lib plan result parsed s.presence p ok evs) :
    ok = presenceOk lib plan s result parsed := by
  unfold presenceOk
  cases h with
  | other hfeed => simp [hfeed]
  | unparsed hfeed hnot =>
    rw [hparsed] at hnot
    simp [hfeed, hnot.resolve_left Bool.noConfusion]
  | refused hfeed _ hmessage hprepare =>
    simp only [hfeed, hmessage, hprepare, Option.any_some]
    rfl
  | appended hfeed _ hmessage hprepare =>
    simp only [hfeed, hmessage, hprepare, Option.any_some]
    rfl

/-- What the blocks come to that can lose something. -/
theorem lossy_eq {parsed : Parsed} {p : TripUpdatePresence} {ok : Bool} {evs : Trace}
    (h : PresenceStep lib plan result parsed s.presence p ok evs) {tracked : Tracked}
    (htracked : trackedOk tracked = (!parsed.ok || tracksOk lib plan s result parsed)) :
    (!parsed.ok || !trackedOk tracked || !ok) = lossy lib plan s result parsed := by
  unfold lossy
  cases hparsed : parsed.ok with
  | false => rfl
  | true =>
    have hpresence := presenceOk_of_step lib plan s result hparsed h
    rw [hparsed] at htracked
    have htracks : trackedOk tracked = tracksOk lib plan s result parsed := htracked.trans rfl
    rw [hpresence, htracks, Bool.not_true, Bool.false_or, Bool.false_or, Bool.or_comm]

end response

/-- While a response is processed: once one of the reasons to archive it holds, its archival was
attempted, and before that there is no evidence. -/
def SoFar (lib : Libraries) (result : FetchResult) (payload : Bytes) (reason : Bool)
    (raw : RawOutcome) (trace : Trace) : Prop :=
  if reason then AttemptedFor lib result payload trace
  else raw.archived = false ∧ Adds Quiet [] trace

section response

variable {c : CollectorConfig} {lib : Libraries} {plan : Plan} {s : CollectorState}
  {result : FetchResult} {payload : Bytes} {reason : Bool} {raw : RawOutcome} {trace new : Trace}

theorem SoFar.adds (h : SoFar lib result payload reason raw trace) {p : StorageEvent → Prop}
    (hp : ∀ ev, p ev → Quiet ev) (hadds : Adds p trace new) :
    SoFar lib result payload reason raw new := by
  unfold SoFar at h ⊢
  split
  · next hreason => exact ((if_pos hreason).mp h).mono hadds.subset
  · next hreason =>
    obtain ⟨harchived, hquiet⟩ := (if_neg hreason).mp h
    exact ⟨harchived, hquiet.trans (hadds.mono hp)⟩

/-- One of the forced archivals: `needed` is one more reason. -/
theorem SoFar.archiveUnless (h : SoFar lib result payload reason raw trace) (attempt : Attempt)
    (needed : Bool) :
    After (archiveUnless c lib plan.ops attempt s result payload needed raw) trace fun r new =>
      (∃ raw, r.1 = { s with raw }) ∧ SoFar lib result payload (reason || needed) r.2 new := by
  refine (archiveUnless_after c lib plan s result payload trace attempt needed raw).mono ?_
  rintro ⟨s', raw'⟩ new ⟨hs, hadds, hraw⟩
  refine ⟨hs, ?_⟩
  unfold SoFar at h ⊢
  cases reason with
  | true => exact Attempted.mono h hadds.subset
  | false =>
    obtain ⟨harchived, hquiet⟩ := h
    rw [harchived, Bool.not_false, Bool.and_true] at hraw
    rw [Bool.false_or]
    split
    · next hneeded => rwa [if_pos hneeded] at hraw
    · next hneeded =>
      rw [if_neg hneeded] at hraw
      exact ⟨hraw.2, hraw.1 ▸ hquiet⟩

/-- The end of a response: the health write leads to evidence, and without it there is what there
was before. -/
theorem SoFar.finish (h : SoFar lib result payload reason raw trace)
    {p : StorageEvent → Prop} (hadds : Adds p trace new)
    (hend : if plan.health.isOk then
        Journalled lib result new ∨ raw.archived = true ∨ AttemptedFor lib result payload new
      else ∃ ev, new = trace ++ [ev] ∧ ∃ monitor outcome, ev = .health monitor outcome) :
    NotLost lib result payload new ↔ plan.health.isOk = true ∨ reason = true := by
  unfold SoFar at h
  by_cases hreason : reason = true
  · rw [if_pos hreason] at h
    exact iff_of_true (Or.inr (Attempted.mono h hadds.subset)) (Or.inr hreason)
  · rw [if_neg hreason] at h
    obtain ⟨harchived, hquiet⟩ := h
    by_cases hhealth : plan.health.isOk = true
    · rw [if_pos hhealth, harchived] at hend
      exact iff_of_true (hend.imp_right fun h => h.resolve_left Bool.noConfusion) (Or.inl hhealth)
    · rw [if_neg hhealth] at hend
      obtain ⟨ev, rfl, monitor, outcome, rfl⟩ := hend
      exact iff_of_false (not_notLost_of_quiet (hquiet.trans (Adds.one trivial)))
        (not_or.mpr ⟨hhealth, hreason⟩)

/-- The reasons a response has evidence. -/
def reasons (c : CollectorConfig) (lib : Libraries) (plan : Plan) (s : CollectorState)
    (result : FetchResult) (payload : Bytes) : Bool :=
  isDue c s.raw result.feedName (plan.monotonic .regular) ||
    auxiliaryChanged lib s result (parsePayload lib result payload) ||
    lossy lib plan s result (parsePayload lib result payload)

/-- A response up to its end. -/
theorem processPayload_after (hquiet : Adds Quiet [] trace) :
    After (processPayload c lib plan.ops s result payload) trace fun _ new =>
      NotLost lib result payload new ↔
        plan.health.isOk = true ∨ reasons c lib plan s result payload = true := by
  unfold processPayload
  refine (archive_after c lib plan s result payload trace .regular false).bind ?_
  rintro ⟨s1, raw1⟩ t1 ⟨⟨memory1, hs1⟩, hadds, hdue⟩
  obtain rfl : s1 = _ := hs1
  have h1 : SoFar lib result payload (isDue c s.raw result.feedName (plan.monotonic .regular)) raw1
      t1 := by
    unfold SoFar
    rw [Bool.false_or] at hdue
    split
    · next hreason => rwa [if_pos hreason] at hdue
    · next hreason =>
      rw [if_neg hreason] at hdue
      exact ⟨hdue.2, hdue.1 ▸ hquiet⟩
  refine (h1.archiveUnless .auxiliary _).bind ?_
  rintro ⟨s2, raw2⟩ t2 ⟨⟨memory2, hs2⟩, h2⟩
  obtain rfl : s2 = _ := hs2
  refine (observePresence_after lib plan _ result _ t2).bind ?_
  rintro ⟨s3, presence⟩ t3 ⟨p, evs, hs3, rfl, hstep⟩
  obtain rfl : s3 = _ := hs3
  have h3 := h2.adds (fun ev => by cases ev <;> simp [StorageEvent.IsPresence, Quiet])
    (⟨evs, rfl, hstep.isPresence⟩ : Adds StorageEvent.IsPresence t2 (t2 ++ evs))
  refine (trackRows_after lib plan _ result _ _).bind ?_
  rintro ⟨s4, tracked⟩ t4 ⟨⟨trackers, hs4⟩, hadds, htracked⟩
  obtain rfl : s4 = _ := hs4
  have h4 := h3.adds (fun ev => by cases ev <;> simp [StorageEvent.IsStage, Quiet]) hadds
  refine (h4.archiveUnless .fallback _).bind ?_
  rintro ⟨s5, raw5⟩ t5 ⟨⟨memory5, hs5⟩, h5⟩
  obtain rfl : s5 = _ := hs5
  have hlossy : (!(parsePayload lib result payload).ok || !trackedOk tracked || !presence.ok) =
      lossy lib plan s result (parsePayload lib result payload) :=
    lossy_eq lib plan s result hstep htracked
  rw [hlossy] at h5
  exact (finish_after c lib plan _ result payload _ t5 _ presence tracked raw5).mono
    fun r new h => h5.finish h.2.1 h.2.2

/-- **When a poll leaves evidence**: the health write succeeds, or the response is archived before
it, because the regular interval is over, the auxiliary state changed, or something was lost. -/
theorem notLost_iff (c : CollectorConfig) (lib : Libraries) (plan : Plan) (s : CollectorState)
    (result : FetchResult) (payload : Bytes) (hpayload : result.payload = some payload) :
    NotLost lib result payload (process c lib plan s result).2 ↔
      plan.health.isOk = true ∨
      isDue c s.raw result.feedName (plan.monotonic .regular) = true ∨
      auxiliaryChanged lib s result (parsePayload lib result payload) = true ∨
      lossy lib plan s result (parsePayload lib result payload) = true := by
  have h : After (processResult c lib plan.ops s result) [] fun _ new =>
      NotLost lib result payload new ↔
        plan.health.isOk = true ∨ reasons c lib plan s result payload = true := by
    refine (writeRunMetadata_after plan s []).bind ?_
    rintro s0 t0 ⟨⟨written, rfl⟩, hadds⟩
    rw [hpayload]
    exact processPayload_after (hadds.mono fun ev hev => hev ▸ trivial)
  refine h.trans ?_
  simp only [reasons, Bool.or_eq_true, or_assoc]

/-- After a first poll that was archived, and within the raw interval. -/
def afterFirstPoll : CollectorState :=
  (process defaultConfig sampleLibraries { freshId := "s1" }
    (CollectorState.start defaultConfig "run" "s0" fun _ => {})
    (sampleResult "poll-1" 0 (some emptyMessage))).1.1

theorem notLost_iff_secondPoll :
    let result := sampleResult "poll-2" 10 (some emptyMessage)
    NotLost sampleLibraries result emptyMessage
      (process defaultConfig sampleLibraries { freshId := "s2", monotonic := fun _ => 10 }
        afterFirstPoll result).2 :=
  (notLost_iff defaultConfig sampleLibraries { freshId := "s2", monotonic := fun _ => 10 }
    afterFirstPoll (sampleResult "poll-2" 10 (some emptyMessage)) emptyMessage rfl).mpr
    (Or.inl rfl)

/-- **A silent poll**: a good response within the raw interval, and a full disk at the health
write. -/
theorem not_notLost_fullDisk :
    ¬ ∀ (c : CollectorConfig) (lib : Libraries) (plan : Plan) (s : CollectorState)
      (result : FetchResult) (payload : Bytes), result.payload = some payload →
      NotLost lib result payload (process c lib plan s result).2 := by
  intro h
  have hquiet : ∀ ev ∈ (process defaultConfig sampleLibraries
      { freshId := "s2", monotonic := fun _ => 10
        health := .error ⟨.osError, "No space left on device"⟩ }
      afterFirstPoll (sampleResult "poll-2" 10 (some emptyMessage))).2, Quiet ev := by
    decide +kernel
  refine not_notLost_of_quiet ⟨_, rfl, hquiet⟩ (h _ _ _ _ _ emptyMessage rfl)

end response

end BkkCollector.Collector.Evidence
