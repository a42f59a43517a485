import BkkCollector.PublicExporter.Health

/-! # The health view is faithful

For every state the monitor can reach, the exporter shows a feed as degraded exactly when the status
has a reason about that feed, and the collector as healthy exactly when it has no reason at all.

* `Consistent`: the flags and the booleans of a feed are those of one response. `Update.consistent`
  is one update, `consistent_run` a run.
* `codes_spec`: what the exporter makes of the status of a feed.
* `degraded_iff`: from both, `health_faithful`.
-/

namespace BkkCollector.PublicExporter.HealthFaithful

open BkkCollector.Python.Objects BkkCollector.Python.Documents BkkCollector.Python.Collections
open BkkCollector.Config BkkCollector.Monitoring BkkCollector.Monitoring.Status
open BkkCollector.Collector.ProcessResult BkkCollector.Collector.RawArchive
open BkkCollector.Realtime.Dedup BkkCollector.PublicExporter.Health

/-! ### Runs of the monitor -/

/-- An update of the monitor: a response that `process_result` hands on, whose state may fail to be
saved, a failed request, the outcome of a journal append, or a restart with the saved state. -/
inductive Update where
  | success (result : FetchResult) (parsed : Parsed) (presence : PresenceOutcome)
      (tracked : Tracked) (raw : RawOutcome) (saved : Bool)
  | failure (feed : Feed) (error : String) (saved : Bool)
  | journal (feed : Feed) (ok : Bool)
  | restart

/-- A monitor and the state it saved last. -/
structure Monitored where
  live : Recorded
  saved : Recorded

/-- One update. -/
def Update.apply (w : Monitored) : Update → Monitored
  | .success result parsed presence tracked raw saved =>
    let live := w.live.recordSuccess result.feedName (successOf result parsed presence tracked raw)
    ⟨live, if saved then live else w.saved⟩
  | .failure feed error saved =>
    let live := w.live.recordFailure feed error
    ⟨live, if saved then live else w.saved⟩
  | .journal feed ok => ⟨w.live.journal feed ok, w.saved⟩
  | .restart => ⟨w.saved, w.saved⟩

/-- A new monitor. -/
def start (stale absent frozen alertsFrozen : ℚ) : Monitored :=
  let monitor : HealthMonitor :=
    { staleSeconds := stale, absentSeconds := absent, frozenSeconds := frozen
      alertsFrozenSeconds := alertsFrozen }
  ⟨{ monitor }, { monitor }⟩

/-- The updates of a run. -/
def run (w : Monitored) (updates : List Update) : Monitored := updates.foldl Update.apply w

/-! ### Flags and booleans -/

/-- **The invariant** of a feed: its flags and its booleans are those of one response. -/
structure Consistent (s : FeedState) : Prop where
  silent : s.evidence = none → s.health.freshnessFlags = []
  named : ∀ e ∈ s.evidence, ∀ f ∈ s.health.freshnessFlags, ∃ flag : Flag, f = flag.name ∧
    (flag = .changeTrackerSignalMissing → e.changeTrackingOk = false)
  parse : ∀ e ∈ s.evidence, e.parseOk = false →
    Flag.protobufParseFailed.name ∈ s.health.freshnessFlags
  raw : ∀ e ∈ s.evidence, e.rawOk = false → Flag.rawArchiveFailed.name ∈ s.health.freshnessFlags
  spool : ∀ e ∈ s.evidence, e.spoolOk = false →
    Flag.derivedSpoolFailed.name ∈ s.health.freshnessFlags
  presence : ∀ e ∈ s.evidence, e.presenceOk = false →
    Flag.tripupdatesPresenceFailed.name ∈ s.health.freshnessFlags
  tracking : ∀ e ∈ s.evidence, e.changeTrackingOk = false →
    Flag.changeTrackerSignalMissing.name ∈ s.health.freshnessFlags ∨
      Flag.changeTrackerFailed.name ∈ s.health.freshnessFlags

/-- A response as `process_result` hands it on: its failure flag is one of the tracker's, and there
is one exactly if change tracking failed. -/
structure Tracks (s : Success) : Prop where
  flag : ∀ f ∈ s.changeTrackingFailureFlag,
    f = .changeTrackerSignalMissing ∨ f = .changeTrackerFailed
  failed : s.changeTrackingOk = s.changeTrackingFailureFlag.isNone

theorem tracks_successOf (result : FetchResult) (parsed : Parsed) (presence : PresenceOutcome)
    (tracked : Tracked) (raw : RawOutcome) :
    Tracks (successOf result parsed presence tracked raw) := by
  constructor
  · intro f hf
    obtain ⟨e, -, rfl⟩ := Option.map_eq_some_iff.mp hf
    unfold failureFlag
    split_ifs
    · exact Or.inl rfl
    · exact Or.inr rfl
  · simp [successOf]

theorem mem_relaxAlerts {entityCount : Option ℕ} {flags : List Flag} {f : Flag}
    (h : f ∈ relaxAlerts entityCount flags) :
    f ∈ flags ∨ f = .sourceTimestampUnchangedWarning ∨ f = .payloadUnchangedWarning := by
  simp only [relaxAlerts] at h
  split_ifs at h <;> simp at h <;> tauto

theorem eq_of_mem_ite {c : Prop} [Decidable c] {f x : Flag} (h : f ∈ if c then [x] else []) :
    f = x := by
  split_ifs at h
  · exact List.mem_singleton.mp h
  · cases h

theorem mem_evaluateFreshness {nowTs : ℚ} {header : Option ℤ} {hs ps stale frozen : ℚ} {f : Flag}
    (h : f ∈ evaluateFreshness nowTs header hs ps stale frozen) :
    f = .sourceTimestampStale ∨ f = .payloadFrozen ∨ f = .sourceTimestampFrozen := by
  simp only [evaluateFreshness, List.mem_append] at h
  rcases h with (h | h) | h
  · cases header with
    | none => cases h
    | some t => exact Or.inl (eq_of_mem_ite h)
  · exact Or.inr (Or.inl (eq_of_mem_ite h))
  · exact Or.inr (Or.inr (eq_of_mem_ite h))

/-- A missing signal is a flag only where change tracking failed. -/
theorem changeTracking_of_signalMissing {m : HealthMonitor} {feed : Feed} {s : Success}
    (h : Flag.changeTrackerSignalMissing ∈ m.successFlags feed s) :
    s.changeTrackingOk = false := by
  by_contra hok
  rw [Bool.not_eq_false] at hok
  simp only [HealthMonitor.successFlags, hok, List.mem_append] at h
  rcases h with (((((h | h) | h) | h) | h) | h) | h
  · split_ifs at h
    · rcases mem_relaxAlerts h with h | h | h
      · rcases mem_evaluateFreshness h with h | h | h <;> cases h
      · cases h
      · cases h
    · rcases mem_evaluateFreshness h with h | h | h <;> cases h
  · cases eq_of_mem_ite h
  · cases h
  · cases hmax : s.maxEntityTimestamp with
    | none =>
      rw [hmax] at h
      cases h
    | some t =>
      rw [hmax] at h
      cases eq_of_mem_ite h
  · cases eq_of_mem_ite h
  · cases eq_of_mem_ite h
  · cases eq_of_mem_ite h

theorem mem_successFlags {m : HealthMonitor} {feed : Feed} {s : Success} {flag : Flag}
    (h : flag ∈ m.successFlags feed s) :
    flag.name ∈ ((m.recordSuccess feed s).1.feeds feed).freshnessFlags := by
  simp only [HealthMonitor.recordSuccess, HealthMonitor.set, Function.update_self]
  exact mem_sortedSet.mpr (List.mem_map_of_mem h)

/-- **A response** leaves its feed with its own flags and booleans. -/
theorem consistent_recordSuccess (r : Recorded) (feed : Feed) {s : Success} (hs : Tracks s) :
    Consistent ((r.recordSuccess feed s).state feed) := by
  have hevidence : ∀ e ∈ ((r.recordSuccess feed s).state feed).evidence, e = evidenceOf s := by
    intro e he
    simp only [Recorded.state, Recorded.recordSuccess, Function.update_self] at he
    exact (Option.some.inj he).symm
  constructor
  · intro hnone
    simp [Recorded.state, Recorded.recordSuccess] at hnone
  · intro e he f hf
    rw [hevidence e he]
    simp only [Recorded.state, Recorded.recordSuccess, HealthMonitor.recordSuccess,
      HealthMonitor.set, Function.update_self] at hf
    obtain ⟨flag, hflag, rfl⟩ := List.mem_map.mp (mem_sortedSet.mp hf)
    exact ⟨flag, rfl, fun hmissing => changeTracking_of_signalMissing (hmissing ▸ hflag)⟩
  · intro e he hfalse
    rw [hevidence e he] at hfalse
    have hok : s.parseOk = false := hfalse
    exact mem_successFlags (by simp [HealthMonitor.successFlags, hok])
  · intro e he hfalse
    rw [hevidence e he] at hfalse
    have hok : s.rawOk = false := hfalse
    exact mem_successFlags (by simp [HealthMonitor.successFlags, hok])
  · intro e he hfalse
    rw [hevidence e he] at hfalse
    have hok : s.spoolOk = false := hfalse
    exact mem_successFlags (by simp [HealthMonitor.successFlags, hok])
  · intro e he hfalse
    rw [hevidence e he] at hfalse
    have hok : s.presenceOk = false := hfalse
    exact mem_successFlags (by simp [HealthMonitor.successFlags, hok])
  · intro e he hfalse
    rw [hevidence e he] at hfalse
    have hok : s.changeTrackingOk = false := hfalse
    have hsome := hs.failed.symm.trans hok
    obtain ⟨flag, hflag⟩ := Option.ne_none_iff_exists'.mp (Option.isNone_eq_false_iff.mp hsome |>
      Option.isSome_iff_ne_none.mp)
    have hmem : flag ∈ r.monitor.successFlags feed s := by
      simp [HealthMonitor.successFlags, hok, hflag]
    rcases hs.flag flag hflag with rfl | rfl
    · exact Or.inl (mem_successFlags hmem)
    · exact Or.inr (mem_successFlags hmem)

/-- The state of every feed is consistent. -/
def AllConsistent (r : Recorded) : Prop := ∀ feed, Consistent (r.state feed)

/-- An update of one feed. -/
theorem AllConsistent.update {r r' : Recorded} (h : AllConsistent r) (feed : Feed)
    (hfeed : Consistent (r'.state feed)) (hrest : ∀ f, f ≠ feed → r'.state f = r.state f) :
    AllConsistent r' := fun f => by
  by_cases hf : f = feed
  · rw [hf]
    exact hfeed
  · rw [hrest f hf]
    exact h f

/-- An update that leaves the flags and the evidence of a feed. -/
theorem Consistent.congr {s s' : FeedState} (h : Consistent s) (he : s'.evidence = s.evidence)
    (hf : s'.health.freshnessFlags = s.health.freshnessFlags) : Consistent s' := by
  obtain ⟨h1, h2, h3, h4, h5, h6, h7⟩ := h
  constructor <;> rw [he, hf] <;> assumption

theorem AllConsistent.success {r : Recorded} (h : AllConsistent r) (feed : Feed) {s : Success}
    (hs : Tracks s) : AllConsistent (r.recordSuccess feed s) := by
  refine h.update feed (consistent_recordSuccess r feed hs) fun f hf => ?_
  simp [Recorded.state, Recorded.recordSuccess, HealthMonitor.recordSuccess, HealthMonitor.set, hf]

theorem AllConsistent.failure {r : Recorded} (h : AllConsistent r) (feed : Feed) (error : String) :
    AllConsistent (r.recordFailure feed error) := by
  refine h.update feed ((h feed).congr rfl ?_) fun f hf => ?_
  · simp [Recorded.state, Recorded.recordFailure, HealthMonitor.recordFailure, HealthMonitor.set]
  · simp [Recorded.state, Recorded.recordFailure, HealthMonitor.recordFailure, HealthMonitor.set,
      hf]

theorem AllConsistent.journal {r : Recorded} (h : AllConsistent r) (feed : Feed) (ok : Bool) :
    AllConsistent (r.journal feed ok) := by
  refine h.update feed ((h feed).congr rfl ?_) fun f hf => ?_
  · simp [Recorded.state, Recorded.journal, HealthMonitor.journal, HealthMonitor.set]
  · simp [Recorded.state, Recorded.journal, HealthMonitor.journal, HealthMonitor.set, hf]

/-- **One update keeps the invariant**, in memory and in the file. -/
theorem Update.consistent {w : Monitored} (h : AllConsistent w.live ∧ AllConsistent w.saved)
    (u : Update) : AllConsistent (u.apply w).live ∧ AllConsistent (u.apply w).saved := by
  cases u with
  | success result parsed presence tracked raw saved =>
    have hlive := h.1.success result.feedName (tracks_successOf result parsed presence tracked raw)
    refine ⟨hlive, ?_⟩
    cases saved with
    | false => exact h.2
    | true => exact hlive
  | failure feed error saved =>
    have hlive := h.1.failure feed error
    refine ⟨hlive, ?_⟩
    cases saved with
    | false => exact h.2
    | true => exact hlive
  | journal feed ok => exact ⟨h.1.journal feed ok, h.2⟩
  | restart => exact ⟨h.2, h.2⟩

theorem consistent_run {w : Monitored} (h : AllConsistent w.live ∧ AllConsistent w.saved)
    (updates : List Update) :
    AllConsistent (run w updates).live ∧ AllConsistent (run w updates).saved := by
  induction updates generalizing w with
  | nil => exact h
  | cons u updates ih => exact ih (u.consistent h)

theorem consistent_start (stale absent frozen alertsFrozen : ℚ) :
    AllConsistent (start stale absent frozen alertsFrozen).live := fun feed =>
  { silent := fun _ => rfl
    named := fun e he => by cases he
    parse := fun e he => by cases he
    raw := fun e he => by cases he
    spool := fun e he => by cases he
    presence := fun e he => by cases he
    tracking := fun e he => by cases he }

/-! ### Labels -/

theorem isPrefixOf_labelled (feed feed' : Feed) (code : String) :
    (feed.name ++ ":").toList.isPrefixOf (labelled feed' code).toList = decide (feed = feed') := by
  cases feed <;> cases feed' <;>
    simp [labelled, Feed.name, String.toList_append, List.isPrefixOf]

theorem prefix_labelled (feed : Feed) (code : String) :
    (feed.name ++ ":").toList.isPrefixOf (labelled feed code).toList = true := by
  rw [isPrefixOf_labelled]
  exact decide_eq_true rfl

theorem afterColon_labelled (feed : Feed) (code : String) :
    afterColon (labelled feed code) = code := by
  cases feed <;> simp [afterColon, labelled, Feed.name, String.toList_append, List.dropWhile]

theorem mem_itemCodes {feed : Feed} {items : List String} {c : String} :
    c ∈ itemCodes feed (items.map Doc.str) ↔
      ∃ s ∈ items, (feed.name ++ ":").toList.isPrefixOf s.toList = true ∧ afterColon s = c := by
  simp only [itemCodes, List.mem_filterMap, List.mem_map]
  constructor
  · rintro ⟨_, ⟨s, hs, rfl⟩, h⟩
    simp only at h
    split_ifs at h with hlabel
    exact ⟨s, hs, hlabel, Option.some.inj h⟩
  · rintro ⟨s, hs, hlabel, rfl⟩
    exact ⟨_, ⟨s, hs, rfl⟩, if_pos hlabel⟩

/-- The items about a feed, among the labelled codes of all feeds. -/
theorem labelled_of_mem {codes : Feed → List String} {feed : Feed} {s : String}
    (hs : s ∈ feedNames.flatMap fun f => (codes f).map (labelled f))
    (hlabel : (feed.name ++ ":").toList.isPrefixOf s.toList = true) :
    ∃ c ∈ codes feed, s = labelled feed c := by
  obtain ⟨f, -, hs⟩ := List.mem_flatMap.mp hs
  obtain ⟨c, hc, rfl⟩ := List.mem_map.mp hs
  rw [isPrefixOf_labelled, decide_eq_true_eq] at hlabel
  subst hlabel
  exact ⟨c, hc, rfl⟩

theorem mem_labelled {codes : Feed → List String} {feed : Feed} {c : String} (hc : c ∈ codes feed) :
    labelled feed c ∈ feedNames.flatMap fun f => (codes f).map (labelled f) :=
  List.mem_flatMap.mpr ⟨feed, by cases feed <;> decide, List.mem_map_of_mem hc⟩

theorem mem_commonReasons {a : StatusArguments} {s : String} (h : s ∈ commonReasons a) :
    s ∈ ["disk:critical", "disk:low", "parquet_flush_failed", "cycle_storage_error",
      "parquet_worker_stopped", "parquet_worker_stuck"] := by
  have hif : ∀ {c : Prop} [Decidable c] {x : String}, s ∈ codeIf c x → s = x := by
    intro c _ x hs
    unfold codeIf at hs
    split_ifs at hs
    · exact List.mem_singleton.mp hs
    · cases hs
  simp only [commonReasons, List.mem_append] at h
  rcases h with ((h | h) | h) | h
  · split_ifs at h
    · rw [List.mem_singleton.mp h]
      decide
    · rw [hif h]
      decide
  · rw [hif h]
    decide
  · rw [hif h]
    decide
  · cases hw : a.parquetWorker with
    | none =>
      rw [hw] at h
      cases h
    | some worker =>
      rw [hw] at h
      rcases List.mem_append.mp h with h | h <;> rw [hif h] <;> decide

/-- A common reason is about no feed. -/
theorem not_prefix_commonReasons {a : StatusArguments} {s : String} (h : s ∈ commonReasons a)
    (feed : Feed) : (feed.name ++ ":").toList.isPrefixOf s.toList = false := by
  have hnone : ∀ s ∈ ["disk:critical", "disk:low", "parquet_flush_failed", "cycle_storage_error",
      "parquet_worker_stopped", "parquet_worker_stuck"],
      (feed.name ++ ":").toList.isPrefixOf s.toList = false := by
    cases feed <;> decide +kernel
  exact hnone s (mem_commonReasons h)

/-! ### Reasons of the status -/

variable (utcIso : ℚ → String) (r : Recorded) (a : StatusArguments) (feed : Feed)

theorem mem_reasons {s : String} : s ∈ (writeStatus utcIso r a).reasons ↔
    s ∈ (feedNames.flatMap fun f => (r.reasonCodes a f).map (labelled f)) ∨
      s ∈ commonReasons a := by
  simp only [writeStatus, mem_sortedSet, List.mem_append]

theorem mem_warnings {s : String} : s ∈ (writeStatus utcIso r a).warnings ↔
    s ∈ feedNames.flatMap fun f => (r.warningCodes a f).map (labelled f) := by
  simp only [writeStatus, mem_sortedSet]

/-- Does the status have a reason with a feed's prefix. -/
def HasReason (status : StatusFile) (feed : Feed) : Prop :=
  ∃ reason ∈ status.reasons, (feed.name ++ ":").toList.isPrefixOf reason.toList = true

theorem hasReason_iff : HasReason (writeStatus utcIso r a) feed ↔ r.reasonCodes a feed ≠ [] := by
  constructor
  · rintro ⟨s, hs, hlabel⟩
    rcases (mem_reasons utcIso r a).mp hs with hs | hs
    · obtain ⟨c, hc, -⟩ := labelled_of_mem hs hlabel
      exact List.ne_nil_of_mem hc
    · rw [not_prefix_commonReasons hs feed] at hlabel
      cases hlabel
  · intro h
    obtain ⟨c, hc⟩ := List.exists_mem_of_ne_nil _ h
    exact ⟨labelled feed c, (mem_reasons utcIso r a).mpr (Or.inl (mem_labelled hc)),
      prefix_labelled feed c⟩

/-- What the exporter finds about a feed among the reasons and the warnings. -/
theorem mem_itemCodes_status {c : String} :
    c ∈ itemCodes feed (((writeStatus utcIso r a).reasons ++
      (writeStatus utcIso r a).warnings).map Doc.str) ↔
      c ∈ r.reasonCodes a feed ∨ c ∈ r.warningCodes a feed := by
  rw [mem_itemCodes]
  constructor
  · rintro ⟨s, hs, hlabel, rfl⟩
    rcases List.mem_append.mp hs with hs | hs
    · rcases (mem_reasons utcIso r a).mp hs with hs | hs
      · obtain ⟨c, hc, rfl⟩ := labelled_of_mem hs hlabel
        rw [afterColon_labelled]
        exact Or.inl hc
      · rw [not_prefix_commonReasons hs feed] at hlabel
        cases hlabel
    · obtain ⟨c, hc, rfl⟩ := labelled_of_mem ((mem_warnings utcIso r a).mp hs) hlabel
      rw [afterColon_labelled]
      exact Or.inr hc
  · rintro (hc | hc)
    · exact ⟨labelled feed c, List.mem_append_left _
        ((mem_reasons utcIso r a).mpr (Or.inl (mem_labelled hc))), prefix_labelled feed c,
        afterColon_labelled feed c⟩
    · exact ⟨labelled feed c, List.mem_append_right _
        ((mem_warnings utcIso r a).mpr (mem_labelled hc)), prefix_labelled feed c,
        afterColon_labelled feed c⟩

/-! ### Reading the status -/

theorem hashAll_map_str (l : List String) : hashAll (l.map Doc.str) = .ok (l.map Doc.str) := by
  induction l with
  | nil => rfl
  | cons s l ih =>
    simp only [List.map_cons, hashAll, ih]
    rfl

theorem filterMap_asStr (l : List String) : (l.map Doc.str).filterMap Doc.asStr = l := by
  induction l with
  | nil => rfl
  | cons s l ih =>
    simp only [List.map_cons, List.filterMap_cons, Doc.asStr, ih]

/-- The codes of the booleans that are false in an object. -/
theorem failedCodes_dict (members : List (String × Doc)) (fields : List (String × String)) :
    failedCodes (.dict members) fields =
      .ok ((fields.filter fun f => decide (members.lookup f.1 = some (.bool false))).map
        Prod.snd) := by
  induction fields with
  | nil => rfl
  | cons f fields ih =>
    simp only [failedCodes, ih, Health.isFalse, Doc.find_dict, List.filter_cons]
    by_cases h : members.lookup f.1 = some (.bool false)
    · simp [h, bind, Except.bind, pure, Except.pure, Except.map]
    · simp [h, bind, Except.bind, pure, Except.pure, Except.map]

theorem lookup_member (key key' : String) (x : Option Doc) :
    (member key x).lookup key' = if key' = key then x else none := by
  cases x with
  | none => simp [member]
  | some d =>
    by_cases h : key' = key
    · simp [member, h]
    · simp [member, h, List.lookup_cons, beq_eq_false_iff_ne.mpr h]

/-- The members of the state of a feed. -/
theorem exists_stateDoc : ∃ members, r.stateDoc a feed = .dict members ∧ members ≠ [] ∧
    members.lookup "freshness_flags" =
      (r.evidence feed).map (fun _ => texts (r.monitor.feeds feed).freshnessFlags) ∧
    members.lookup "parse_ok" = (r.evidence feed).map (fun e => .bool e.parseOk) ∧
    members.lookup "raw_ok" = (r.evidence feed).map (fun e => .bool e.rawOk) ∧
    members.lookup "spool_ok" = (r.evidence feed).map (fun e => .bool e.spoolOk) ∧
    members.lookup "presence_ok" = (r.evidence feed).map (fun e => .bool e.presenceOk) ∧
    members.lookup "change_tracking_ok" =
      (r.evidence feed).map (fun e => .bool e.changeTrackingOk) ∧
    members.lookup "poll_journal_ok" = (r.monitor.feeds feed).pollJournalOk.map Doc.bool ∧
    members.lookup "scheduler" = (a.scheduler feed).map Schedule.doc := by
  refine ⟨_, rfl, by simp, ?_⟩
  cases r.evidence feed with
  | none => simp [List.lookup_append, lookup_member, List.lookup_cons]
  | some e => simp [List.lookup_append, lookup_member, List.lookup_cons, Evidence.members]

/-- The members of the status that the exporter reads. -/
theorem get_status : (writeStatus utcIso r a).doc.get "updated_timestamp" .null =
      .ok (seconds a.nowTs) ∧
    (writeStatus utcIso r a).doc.get "healthy" .null =
      .ok (.bool (writeStatus utcIso r a).healthy) ∧
    (writeStatus utcIso r a).doc.get "reasons" (.list []) =
      .ok (texts (writeStatus utcIso r a).reasons) ∧
    (writeStatus utcIso r a).doc.get "warnings" (.list []) =
      .ok (texts (writeStatus utcIso r a).warnings) ∧
    (writeStatus utcIso r a).doc.get "feeds" (.dict []) =
      .ok (.dict (feedNames.map fun feed => (feed.name, r.stateDoc a feed))) := by
  simp [writeStatus, Doc.get_dict, List.lookup_cons]

theorem get_feed : (Doc.dict (feedNames.map fun feed => (feed.name, r.stateDoc a feed))).get
    feed.name (.dict []) = .ok (r.stateDoc a feed) := by
  cases feed <;> simp [feedNames, Feed.name, Doc.get_dict, List.lookup_cons]

/-- The flags of the state of a feed, as the exporter finds them. -/
def shownFlags : List String :=
  ((r.evidence feed).map fun _ => (r.monitor.feeds feed).freshnessFlags).getD []

/-- The booleans of a feed that are false, by their codes. -/
def failedBooleans : List (Option Bool × String) :=
  [((r.evidence feed).map Evidence.parseOk, "protobuf_parse_failed"),
    ((r.evidence feed).map Evidence.rawOk, "raw_archive_failed"),
    ((r.evidence feed).map Evidence.spoolOk, "derived_spool_failed"),
    ((r.evidence feed).map Evidence.presenceOk, "tripupdates_presence_failed"),
    ((r.evidence feed).map Evidence.changeTrackingOk, "change_tracker_failed"),
    ((r.monitor.feeds feed).pollJournalOk, "poll_journal_failed")]

/-- Every code the exporter finds about a feed. -/
def found : List String :=
  shownFlags r feed ++
    ((failedBooleans r feed).filter fun p => decide (p.1 = some false)).map Prod.snd ++
    itemCodes feed (((writeStatus utcIso r a).reasons ++ (writeStatus utcIso r a).warnings).map
      Doc.str)

/-- Filtering two lists of coded entries by predicates that agree. -/
theorem map_filter_eq {α β : Type} {p : α → Bool} {q : β → Bool} {l : List (α × String)}
    {l' : List (β × String)} (h : List.Forall₂ (fun x y => p x.1 = q y.1 ∧ x.2 = y.2) l l') :
    (l.filter fun x => p x.1).map Prod.snd = (l'.filter fun y => q y.1).map Prod.snd := by
  induction h with
  | nil => rfl
  | @cons x y l l' hxy _ ih =>
    rw [List.filter_cons, List.filter_cons, hxy.1]
    split_ifs
    · rw [List.map_cons, List.map_cons, hxy.2, ih]
    · exact ih

theorem failedCodes_stateDoc : failedCodes (r.stateDoc a feed) failureFields =
    .ok (((failedBooleans r feed).filter fun p => decide (p.1 = some false)).map Prod.snd) := by
  obtain ⟨members, hdoc, -, -, hparse, hraw, hspool, hpresence, htracking, hjournal, -⟩ :=
    exists_stateDoc r a feed
  have hbool : ∀ b : Option Bool,
      decide (b.map Doc.bool = some (.bool false)) = decide (b = some false) := by
    intro b
    cases b <;> simp
  have hevidence : ∀ f : Evidence → Bool,
      decide ((r.evidence feed).map (fun e => Doc.bool (f e)) = some (.bool false)) =
        decide ((r.evidence feed).map f = some false) := by
    intro f
    rw [← hbool, Option.map_map]
    rfl
  rw [hdoc, failedCodes_dict]
  refine congrArg Except.ok (map_filter_eq
    (p := fun field => decide (members.lookup field = some (.bool false)))
    (q := fun b => decide (b = some false)) ?_)
  refine .cons ⟨?_, rfl⟩ (.cons ⟨?_, rfl⟩ (.cons ⟨?_, rfl⟩ (.cons ⟨?_, rfl⟩ (.cons ⟨?_, rfl⟩
    (.cons ⟨?_, rfl⟩ .nil)))))
  · rw [hparse, hevidence]
  · rw [hraw, hevidence]
  · rw [hspool, hevidence]
  · rw [hpresence, hevidence]
  · rw [htracking, hevidence]
  · rw [hjournal, hbool]

/-- **What the exporter makes of the status of a feed.** -/
theorem feedView_status (isoText : ℚ → Option String) (current : Bool) :
    ∃ v, feedView isoText (writeStatus utcIso r a).doc current feed = .ok v ∧
      v.issues = sortedSet ((found utcIso r a feed).filter fun code => code ∈ issues) ∧
      v.state = if !current then .unknown
        else if v.issues.any fun code => !isAdvisory code then .degraded else .healthy := by
  obtain ⟨-, -, hreasons, hwarnings, hfeeds⟩ := get_status utcIso r a
  obtain ⟨members, hdoc, hne, hflags, -, -, -, -, -, -, hscheduler⟩ := exists_stateDoc r a feed
  have hfailed := failedCodes_stateDoc r a feed
  have hget : (r.stateDoc a feed).get "freshness_flags" (.list []) =
      .ok (texts (shownFlags r feed)) := by
    rw [hdoc, Doc.get_dict, hflags, shownFlags]
    cases r.evidence feed <;> rfl
  have htruthy : (r.stateDoc a feed).truthy = true := by
    rw [hdoc]
    cases members with
    | nil => exact absurd rfl hne
    | cons m ms => rfl
  have hschedule : ∃ ms, (r.stateDoc a feed).get "scheduler" (.dict []) = .ok (.dict ms) := by
    rw [hdoc, Doc.get_dict, hscheduler]
    cases a.scheduler feed with
    | none => exact ⟨_, rfl⟩
    | some s => exact ⟨_, rfl⟩
  obtain ⟨ms, hschedule⟩ := hschedule
  have hother : ∀ key, ∃ d, (r.stateDoc a feed).get key .null = .ok d := fun key =>
    ⟨_, by rw [hdoc, Doc.get_dict]⟩
  obtain ⟨last, hlast⟩ := hother "last_success_timestamp"
  obtain ⟨header, hheader⟩ := hother "header_timestamp"
  obtain ⟨count, hcount⟩ := hother "entity_count"
  have hinterval := Doc.get_dict ms "interval_seconds" .null
  simp only [feedView, hfeeds, get_feed, hget, hfailed, hreasons, hwarnings, hschedule, hlast,
    hheader, hcount, hinterval, htruthy, texts, Doc.items, concat, hashAll_map_str,
    filterMap_asStr, bind, Except.bind, pure, Except.pure, Bool.not_true, Bool.or_false,
    ← List.map_append]
  exact ⟨_, rfl, rfl, rfl⟩

/-! ### Degraded feeds -/

variable {r a feed}

theorem mem_codeIf {c : Prop} [Decidable c] {code x : String} :
    x ∈ codeIf c code ↔ c ∧ x = code := by
  unfold codeIf
  split_ifs with h
  · rw [List.mem_singleton]
    exact (and_iff_right h).symm
  · exact iff_of_false (fun hx => by cases hx) fun hx => h hx.1

theorem reason_of_flag {f : String} (hf : f ∈ (r.monitor.feeds feed).freshnessFlags)
    (hw : isWarning f = false) : f ∈ r.reasonCodes a feed := by
  simp only [Recorded.reasonCodes, List.mem_append, List.mem_filter]
  exact Or.inl (Or.inr ⟨hf, by rw [hw]; rfl⟩)

/-- The reasons of a feed: five conditions, or a flag of its last response. -/
theorem reason_cases {c : String} (h : c ∈ r.reasonCodes a feed) :
    c ∈ ["absent", "http_failed", "poll_journal_failed", "request_stuck", "scheduler_overdue"] ∨
      (c ∈ (r.monitor.feeds feed).freshnessFlags ∧ isWarning c = false) := by
  simp only [Recorded.reasonCodes, List.mem_append, List.mem_filter] at h
  rcases h with (((h | h) | h) | ⟨h, hw⟩) | h
  · rw [(mem_codeIf.mp h).2]
    exact Or.inl (by decide)
  · rw [(mem_codeIf.mp h).2]
    exact Or.inl (by decide)
  · rw [(mem_codeIf.mp h).2]
    exact Or.inl (by decide)
  · exact Or.inr ⟨h, by simpa using hw⟩
  · cases hs : a.scheduler feed with
    | none =>
      rw [hs] at h
      cases h
    | some s =>
      rw [hs] at h
      rcases List.mem_append.mp h with h | h
      · rw [(mem_codeIf.mp h).2]
        exact Or.inl (by decide)
      · rw [(mem_codeIf.mp h).2]
        exact Or.inl (by decide)

/-- A warning is advisory. -/
theorem isAdvisory_of_warning {c : String} (h : c ∈ r.warningCodes a feed) :
    isAdvisory c = true := by
  rcases List.mem_append.mp h with h | h
  · have hw : endsWithWarning c = true := (List.mem_filter.mp h).2
    rw [isAdvisory, hw]
    rfl
  · cases hs : a.scheduler feed with
    | none =>
      rw [hs] at h
      cases h
    | some s =>
      rw [hs] at h
      rcases List.mem_append.mp h with h | h
      · rw [(mem_codeIf.mp h).2]
        decide +kernel
      · rw [(mem_codeIf.mp h).2]
        decide +kernel

/-- A boolean that is false comes with a reason. -/
theorem reason_of_failed (h : Consistent (r.state feed)) {p : Option Bool × String}
    (hp : p ∈ failedBooleans r feed) (hfalse : p.1 = some false) : r.reasonCodes a feed ≠ [] := by
  have hflag : ∀ {f : Flag}, isWarning f.name = false →
      f.name ∈ (r.state feed).health.freshnessFlags → r.reasonCodes a feed ≠ [] := fun hw hf =>
    List.ne_nil_of_mem (reason_of_flag hf hw)
  have hsome : ∀ {f : Evidence → Bool}, (r.evidence feed).map f = some false →
      ∃ e ∈ (r.state feed).evidence, f e = false := fun hf => Option.map_eq_some_iff.mp hf
  simp only [failedBooleans, List.mem_cons, List.not_mem_nil, or_false] at hp
  rcases hp with rfl | rfl | rfl | rfl | rfl | rfl
  · obtain ⟨e, he, hf⟩ := hsome hfalse
    exact hflag (by decide +kernel) (h.parse e he hf)
  · obtain ⟨e, he, hf⟩ := hsome hfalse
    exact hflag (by decide +kernel) (h.raw e he hf)
  · obtain ⟨e, he, hf⟩ := hsome hfalse
    exact hflag (by decide +kernel) (h.spool e he hf)
  · obtain ⟨e, he, hf⟩ := hsome hfalse
    exact hflag (by decide +kernel) (h.presence e he hf)
  · obtain ⟨e, he, hf⟩ := hsome hfalse
    rcases h.tracking e he hf with hmem | hmem
    · exact hflag (by decide +kernel) hmem
    · exact hflag (by decide +kernel) hmem
  · refine List.ne_nil_of_mem (a := "poll_journal_failed") ?_
    simp only [Recorded.reasonCodes, List.mem_append]
    exact Or.inl (Or.inl (Or.inr (mem_codeIf.mpr ⟨hfalse, rfl⟩)))

/-- **A feed degrades exactly when it has a reason.** -/
theorem degraded_iff (h : Consistent (r.state feed)) :
    (∃ c ∈ found utcIso r a feed, c ∈ issues ∧ isAdvisory c = false) ↔
      r.reasonCodes a feed ≠ [] := by
  constructor
  · rintro ⟨c, hc, -, hadvisory⟩
    rcases List.mem_append.mp hc with hc | hc
    · rcases List.mem_append.mp hc with hc | hc
      · have hflag : c ∈ (r.monitor.feeds feed).freshnessFlags := by
          unfold shownFlags at hc
          cases he : r.evidence feed with
          | none =>
            rw [he] at hc
            cases hc
          | some e =>
            rw [he] at hc
            exact hc
        have hw : isWarning c = false := by
          unfold isAdvisory at hadvisory
          exact (Bool.or_eq_false_iff.mp hadvisory).1
        exact List.ne_nil_of_mem (reason_of_flag hflag hw)
      · obtain ⟨p, hp, rfl⟩ := List.mem_map.mp hc
        obtain ⟨hmem, hfalse⟩ := List.mem_filter.mp hp
        exact reason_of_failed h hmem (of_decide_eq_true hfalse)
    · rcases (mem_itemCodes_status utcIso r a feed).mp hc with hc | hc
      · exact List.ne_nil_of_mem hc
      · rw [isAdvisory_of_warning hc] at hadvisory
        cases hadvisory
  · intro hne
    obtain ⟨c, hc⟩ := List.exists_mem_of_ne_nil _ hne
    have hfound : c ∈ found utcIso r a feed :=
      List.mem_append_right _ ((mem_itemCodes_status utcIso r a feed).mpr (Or.inl hc))
    rcases reason_cases hc with hknown | ⟨hflag, hw⟩
    · have hclosed : ∀ c ∈ ["absent", "http_failed", "poll_journal_failed", "request_stuck",
          "scheduler_overdue"], c ∈ issues ∧ isAdvisory c = false := by decide +kernel
      exact ⟨c, hfound, hclosed c hknown⟩
    · cases he : r.evidence feed with
      | none =>
        have hnil := h.silent he
        rw [show (r.monitor.feeds feed).freshnessFlags = [] from hnil] at hflag
        cases hflag
      | some e =>
        obtain ⟨flag, rfl, hmissing⟩ := h.named e he c hflag
        by_cases hsignal : flag = .changeTrackerSignalMissing
        · -- its name is not public, but the boolean stands in for it
          refine ⟨"change_tracker_failed", ?_, by decide +kernel⟩
          refine List.mem_append_left _ (List.mem_append_right _ ?_)
          refine List.mem_map.mpr ⟨((r.evidence feed).map Evidence.changeTrackingOk,
            "change_tracker_failed"), List.mem_filter.mpr ⟨?_, ?_⟩, rfl⟩
          · simp [failedBooleans]
          · rw [he, Option.map_some, hmissing hsignal]
            rfl
        · refine ⟨flag.name, hfound, ?_⟩
          revert hw hsignal
          cases flag <;> decide +kernel

/-! ### The view -/

/-- The state shown of a feed. -/
theorem state_iff (h : Consistent (r.state feed)) {v : FeedView}
    (hissues : v.issues = sortedSet ((found utcIso r a feed).filter fun code => code ∈ issues))
    (hstate : v.state = if v.issues.any fun code => !isAdvisory code then .degraded
      else .healthy) :
    (v.state = .degraded ↔ HasReason (writeStatus utcIso r a) feed) ∧
      (v.state = .healthy ↔ ¬ HasReason (writeStatus utcIso r a) feed) := by
  have hany : (v.issues.any fun code => !isAdvisory code) = true ↔
      HasReason (writeStatus utcIso r a) feed := by
    rw [hasReason_iff, ← degraded_iff utcIso h, hissues, List.any_eq_true]
    constructor
    · rintro ⟨c, hc, hadvisory⟩
      obtain ⟨hfound, hissue⟩ := List.mem_filter.mp (mem_sortedSet.mp hc)
      exact ⟨c, hfound, of_decide_eq_true hissue, by simpa using hadvisory⟩
    · rintro ⟨c, hfound, hissue, hadvisory⟩
      exact ⟨c, mem_sortedSet.mpr (List.mem_filter.mpr ⟨hfound, decide_eq_true hissue⟩),
        by rw [hadvisory]; rfl⟩
  rw [hstate, ← hany]
  split_ifs with hdegraded
  · exact ⟨iff_of_true rfl hdegraded, iff_of_false nofun fun hn => hn hdegraded⟩
  · exact ⟨iff_of_false nofun hdegraded, iff_of_true rfl hdegraded⟩

/-- The overall flag of the status. -/
theorem healthy_iff : (writeStatus utcIso r a).healthy = true ↔
    (writeStatus utcIso r a).reasons = [] := by
  simp only [writeStatus, List.isEmpty_iff, List.eq_nil_iff_forall_not_mem, mem_sortedSet]

/-- The view of the status of a consistent state. -/
theorem view_of_consistent (h : AllConsistent r) (isoText : ℚ → Option String) {now : ℚ}
    (hfresh : -30 ≤ now - a.nowTs ∧ now - a.nowTs ≤ 180) {maintenance : Doc} {m : MaintenanceView}
    (hmaintenance : maintenanceView maintenance now = .ok m) :
    ∃ view, health isoText (writeStatus utcIso r a).doc maintenance now = .ok view ∧
      (∀ feed, ((view.feeds feed).state = .degraded ↔ HasReason (writeStatus utcIso r a) feed) ∧
        ((view.feeds feed).state = .healthy ↔ ¬ HasReason (writeStatus utcIso r a) feed)) ∧
      (view.state = .healthy ↔ (writeStatus utcIso r a).reasons = []) := by
  have hcurrent : isCurrent now 180 (seconds a.nowTs) = true := decide_eq_true hfresh
  obtain ⟨hstamp, hhealthy, -, -, -⟩ := get_status utcIso r a
  obtain ⟨v, hv, hvissues, hvstate⟩ := feedView_status utcIso r a .vehiclepositions isoText true
  obtain ⟨t, ht, htissues, htstate⟩ := feedView_status utcIso r a .tripupdates isoText true
  obtain ⟨l, hl, hlissues, hlstate⟩ := feedView_status utcIso r a .alerts isoText true
  simp only [health, hstamp, hhealthy, hcurrent, hv, ht, hl, hmaintenance, bind, Except.bind, pure,
    Except.pure]
  refine ⟨_, rfl, fun feed => ?_, ?_⟩
  · cases feed with
    | vehiclepositions => exact state_iff utcIso (h _) hvissues hvstate
    | tripupdates => exact state_iff utcIso (h _) htissues htstate
    | alerts => exact state_iff utcIso (h _) hlissues hlstate
  · rw [← healthy_iff]
    cases hok : (writeStatus utcIso r a).healthy with
    | true => exact iff_of_true rfl rfl
    | false => exact iff_of_false nofun nofun

/-- **The health view is faithful**: after any run of the monitor, with any scheduler snapshot and
at any time, the exporter that loads the status while it is fresh shows a feed as degraded exactly
when the status has a reason about it, as healthy exactly when it has none, and the collector as
healthy exactly when the status has no reason. -/
theorem health_faithful (utcIso : ℚ → String) (isoText : ℚ → Option String)
    (stale absent frozen alertsFrozen : ℚ) (updates : List Update) (a : StatusArguments) {size : ℕ}
    (hsize : size ≤ 8 * 1024 * 1024) {now : ℚ} (hfresh : -30 ≤ now - a.nowTs ∧ now - a.nowTs ≤ 180)
    {maintenance : Doc} {m : MaintenanceView}
    (hmaintenance : maintenanceView maintenance now = .ok m) :
    let status := writeStatus utcIso (run (start stale absent frozen alertsFrozen) updates).live a
    ∃ view, health isoText (loadOptional size (some status.doc)) maintenance now = .ok view ∧
      (∀ feed, ((view.feeds feed).state = .degraded ↔ HasReason status feed) ∧
        ((view.feeds feed).state = .healthy ↔ ¬ HasReason status feed)) ∧
      (view.state = .healthy ↔ status.reasons = []) := by
  intro status
  have hstart := consistent_start stale absent frozen alertsFrozen
  have hconsistent := consistent_run ⟨hstart, hstart⟩ updates
  have hload : loadOptional size (some status.doc) = status.doc := if_neg (not_lt.mpr hsize)
  rw [hload]
  exact view_of_consistent utcIso hconsistent.1 isoText hfresh hmaintenance

/-- Arguments of a status written at midnight of 2 October 2026, without a scheduler. -/
def midnightArguments : StatusArguments where
  nowTs := 1790899200
  pollId := "p1"
  diskFreeBytes := 50000000000
  diskWarnBytes := 5000000000
  diskCriticalBytes := 1000000000
  pendingSpoolSegments := 0
  parquetFlushErrors := []
  cycleErrors := []
  scheduler := fun _ => none
  parquetWorker := none

/-- A failed request of one feed and a failed journal append of another, shown ten seconds later. -/
theorem health_faithful_failures :
    let updates := [.failure .tripupdates "timeout" true, .journal .alerts false]
    let status := writeStatus (fun _ => "2026-10-02T00:00:00+00:00")
      (run (start 300 600 900 86400) updates).live midnightArguments
    ∃ view, health (fun _ => some "2026-10-02T00:00:00Z") (loadOptional 2000 (some status.doc))
        (.dict []) 1790899210 = .ok view ∧
      (∀ feed, ((view.feeds feed).state = .degraded ↔ HasReason status feed) ∧
        ((view.feeds feed).state = .healthy ↔ ¬ HasReason status feed)) ∧
      (view.state = .healthy ↔ status.reasons = []) :=
  health_faithful _ _ 300 600 900 86400 _ midnightArguments (by decide) (by decide +kernel)
    (m := ⟨.unknown, false, 0⟩) rfl

end BkkCollector.PublicExporter.HealthFaithful
