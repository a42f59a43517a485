import Mathlib
import BkkCollector.Archive.Checks
import BkkCollector.Archive.StaticTimeline
import BkkCollector.Realtime.PresenceReplay

/-! # The presence evidence of a day

`_presence_stats`, the part of the daily manifest that replays the presence log of a date and
compares it with what the poll journal promises: streams that start at a baseline and count their
records, memberships and source timestamps that replay, poll ids that come once, and for every poll
that promised evidence a record of its stream and sequence.

* `checkRecords_append`: the check of a log is that of its records one after the other.
* `seen_checkRecords`: a log that passes is in `seen` record by record. -/

namespace BkkCollector.Archive.PresenceStats

open BkkCollector.Python.Objects BkkCollector.Python.Documents
open BkkCollector.Archive.Remote BkkCollector.Archive.Checks
open BkkCollector.Archive.StaticTimeline (field valueKey)
open BkkCollector.Realtime.PresenceLog BkkCollector.Realtime.PresenceReplay

/-! ### The check of the log -/

/-- The presence log of a date: what `scan_raw_log` finds, the records `iter_presence` yields, and
how its iteration ends. -/
structure PresenceFile where
  clean : Except PyError Bool := .ok true
  records : List Record
  raised : Option PyError := none

/-- What the loop over the records keeps. -/
structure Checked where
  members : Members := ∅
  sourceTimestamps : Option Timestamps := none
  stream : Option String := none
  sequence : ℕ := 0
  seen : List (String × Option String × ℕ) := []
  count : ℕ := 0
  baselines : ℕ := 0
  sourceTimestampObservations : ℕ := 0

/-- The events that promise evidence, by `poll_id`. -/
abbrev Promised := List (Doc × Doc)

/-- `promised.get(poll_id, {})`. -/
def promisedEvent (promised : Promised) (pollId : String) : Doc :=
  (promised.lookup (.str pollId)).getD (.dict [])

/-- Does the journal promise source timestamps of another version. -/
def timestampsMismatch (promised : Promised) (record : Record) : Bool :=
  let version := field (promisedEvent promised record.context.pollId)
    "presence_source_timestamps_version"
  !version.isNone && !(record.sourceTimestampsVersion.any fun v => version.eqInt v)

/-- A `ValueError` of the check. -/
def invalid (message : String) : PyError := ⟨.valueError, message⟩

/-- What a baseline resets. -/
def Checked.enter (s : Checked) (record : Record) : Checked :=
  if record.kind = .baseline then
    { s with stream := some record.streamId, sequence := 0, baselines := s.baselines + 1 }
  else s

/-- The body of the loop: the state as far as it came, and the exception that ended it. -/
def checkRecord (promised : Promised) (s : Checked) (record : Record) :
    Checked × Option PyError :=
  if record.kind = .baseline ∧ record.sequence ≠ 1 then
    (s, some (invalid "presence baseline sequence is invalid"))
  else
    let s := s.enter record
    if some record.streamId ≠ s.stream ∨ record.sequence ≠ s.sequence + 1 then
      (s, some (invalid "presence stream has a sequence gap"))
    else
      match applyPresenceRecord s.members record with
      | .error e => (s, some e)
      | .ok members =>
        match applySourceTimestampRecord s.sourceTimestamps record members with
        | .error e => ({ s with members }, some e)
        | .ok sourceTimestamps =>
          let s := { s with
            members, sourceTimestamps
            sourceTimestampObservations :=
              s.sourceTimestampObservations + if sourceTimestamps.isSome then 1 else 0 }
          if timestampsMismatch promised record then
            (s, some (invalid "journal-promised source timestamp evidence is missing/mismatched"))
          else
            let s := { s with sequence := record.sequence }
            if record.context.pollId ∈ s.seen.map Prod.fst then
              (s, some (invalid "duplicate presence poll ID"))
            else
              ({ s with
                seen := assign record.context.pollId (s.stream, s.sequence) s.seen
                count := s.count + 1 }, none)

/-- The loop over the records. -/
def checkRecords (promised : Promised) (s : Checked) : List Record → Checked × Option PyError
  | [] => (s, none)
  | record :: records =>
    match checkRecord promised s record with
    | (s, some e) => (s, some e)
    | (s, none) => checkRecords promised s records

/-- The `try` block. -/
def checkFile (promised : Promised) : Option PresenceFile → Checked × Option PyError
  | none => ({}, none)
  | some file =>
    match file.clean with
    | .error e => ({}, some e)
    | .ok false => ({}, some (invalid "presence log has an invalid/truncated tail"))
    | .ok true =>
      match checkRecords promised {} file.records with
      | (s, some e) => (s, some e)
      | (s, none) => (s, file.raised)

/-! ### The journal -/

/-- A value as a key of a dict: a list or an object has no hash. -/
def hashKey (value : Doc) : Except PyError Doc :=
  match value with
  | .list _ => .error ⟨.typeError, "unhashable type: 'list'"⟩
  | .dict _ => .error ⟨.typeError, "unhashable type: 'dict'"⟩
  | value => .ok (valueKey value)

/-- `event.get("presence_required") and event.get("presence_ok") is True`. -/
def promises (event : Doc) : Except PyError Bool := do
  let required ← event.get "presence_required" .null
  let ok ← event.get "presence_ok" .null
  pure (required.truthy && ok.isTrue)

/-- The promises, in the order of the journal. -/
def promisedItems : List Doc → Except PyError Promised
  | [] => .ok []
  | event :: events => do
    let promise ← promises event
    if promise then do
      let key ← hashKey (← event.item "poll_id")
      let rest ← promisedItems events
      pure ((key, event) :: rest)
    else promisedItems events

/-- `sum(bool(..) for event in events)`. -/
def countEvents (p : Doc → Except PyError Bool) : List Doc → Except PyError ℕ
  | [] => .ok 0
  | event :: events => do
    let counted ← p event
    let rest ← countEvents p events
    pure ((if counted then 1 else 0) + rest)

/-- `event.get("presence_required") and event.get("parse_ok")`. -/
def expects (event : Doc) : Except PyError Bool := do
  let required ← event.get "presence_required" .null
  let parsed ← event.get "parse_ok" .null
  pure (required.truthy && parsed.truthy)

/-- `event.get("parse_ok") and not event.get("presence_required")`. -/
def isLegacy (event : Doc) : Except PyError Bool := do
  let parsed ← event.get "parse_ok" .null
  let required ← event.get "presence_required" .null
  pure (parsed.truthy && !required.truthy)

/-- `(event.get("presence_stream_id"), event.get("presence_sequence"))` is what was seen. -/
def keepsPromise (seen : List (String × Option String × ℕ)) (pollId event : Doc) : Bool :=
  match pollId.asStr.bind fun id => seen.lookup id with
  | some (some stream, sequence) =>
    (field event "presence_stream_id").eqStr stream &&
      (field event "presence_sequence").eqInt sequence
  | _ => false

/-- What `_presence_stats` returns. -/
structure PresenceReport where
  expectedObservations : ℕ
  journalConfirmedObservations : ℕ
  records : ℕ
  baselines : ℕ
  legacyPrePresencePolls : ℕ
  sourceTimestampObservations : ℕ
  unavailableObservations : ℤ
  errors : List String
  quality : List String

/-- A message under a condition. -/
def flagged (condition : Bool) (message : String) : List String :=
  if condition then [message] else []

/-- The report on what was counted and checked. -/
def reportOf (promised : Promised) (expected legacy : ℕ) (recoveredTail : Bool)
    (checked : Checked × Option PyError) : PresenceReport :=
  let kept := promised.all fun item => keepsPromise checked.1.seen item.1 item.2
  let unavailable : ℤ := (expected : ℤ) - promised.length
  { expectedObservations := expected
    journalConfirmedObservations := promised.length
    records := checked.1.count
    baselines := checked.1.baselines
    legacyPrePresencePolls := legacy
    sourceTimestampObservations := checked.1.sourceTimestampObservations
    unavailableObservations := unavailable
    errors := (checked.2.map fun e => "tripupdates_presence: " ++ e.text).toList ++
      flagged (!kept)
        "tripupdates_presence: journal-promised membership evidence is missing/mismatched"
    quality :=
      flagged (unavailable ≠ 0)
        ("tripupdates_presence: " ++ toString unavailable ++ " parsed poll(s) lacked confirmed " ++
          "membership evidence; consult forced raw fallback") ++
      flagged recoveredTail
        "tripupdates_presence: recovered tail; membership observations may be missing" ++
      flagged (expected ≠ 0 && legacy ≠ 0)
        ("tripupdates_presence: mixed-version date; " ++ toString legacy ++
          " legacy parsed poll(s) have no membership evidence") }

/-- `_presence_stats`; `recoveredTail` says whether a detached tail lies beside the log. -/
def presenceStats (file : Option PresenceFile) (recoveredTail : Bool) (events : List Doc) :
    Except PyError PresenceReport := do
  let promised := dictOf (← promisedItems events)
  let expected ← countEvents expects events
  let legacy ← countEvents isLegacy events
  pure (reportOf promised expected legacy recoveredTail (checkFile promised file))

/-! ### The loop -/

variable {promised : Promised} {s s' : Checked} {record : Record} {records : List Record}

/-- **A record that passes**: it is the next one of its stream, it replays, its source timestamps
are those the journal promises, and its poll is new. -/
theorem checkRecord_eq_none :
    checkRecord promised s record = (s', none) ↔
      (record.kind = .baseline → record.sequence = 1) ∧
      some record.streamId = (s.enter record).stream ∧
      record.sequence = (s.enter record).sequence + 1 ∧
      timestampsMismatch promised record = false ∧
      record.context.pollId ∉ s.seen.map Prod.fst ∧
      ∃ r, Replay.apply ⟨s.members, s.sourceTimestamps⟩ record = .ok r ∧
        s' = { s.enter record with
          members := r.members, sourceTimestamps := r.timestamps
          sourceTimestampObservations :=
            s.sourceTimestampObservations + if r.timestamps.isSome then 1 else 0
          sequence := record.sequence
          seen := s.seen ++ [(record.context.pollId, some record.streamId, record.sequence)]
          count := s.count + 1 } := by
  have hmembers : (s.enter record).members = s.members := by unfold Checked.enter; split <;> rfl
  have htimestamps : (s.enter record).sourceTimestamps = s.sourceTimestamps := by
    unfold Checked.enter; split <;> rfl
  have hseen : (s.enter record).seen = s.seen := by unfold Checked.enter; split <;> rfl
  have hcount : (s.enter record).count = s.count := by unfold Checked.enter; split <;> rfl
  have hobservations : (s.enter record).sourceTimestampObservations =
      s.sourceTimestampObservations := by unfold Checked.enter; split <;> rfl
  unfold checkRecord
  by_cases hbaseline : record.kind = .baseline ∧ record.sequence ≠ 1
  · rw [if_pos hbaseline]
    refine iff_of_false (fun h => by cases h) fun h => hbaseline.2 (h.1 hbaseline.1)
  have hfirst : record.kind = .baseline → record.sequence = 1 := fun h =>
    not_not.mp fun hne => hbaseline ⟨h, hne⟩
  rw [if_neg hbaseline]
  dsimp only
  by_cases hgap : some record.streamId ≠ (s.enter record).stream ∨
      record.sequence ≠ (s.enter record).sequence + 1
  · rw [if_pos hgap]
    refine iff_of_false (fun h => by cases h) fun ⟨_, hstream, hsequence, _⟩ => ?_
    exact hgap.elim (fun h => h hstream) fun h => h hsequence
  rw [if_neg hgap]
  rw [not_or, not_not, not_not] at hgap
  rw [hmembers, htimestamps, hseen, hcount, hobservations]
  simp only [Replay.apply, bind_eq_ok, pure_eq_ok]
  cases happly : applyPresenceRecord s.members record with
  | error e =>
    refine iff_of_false (fun h => by cases h) fun ⟨_, _, _, _, _, r, ⟨m, hm, _⟩, _⟩ => ?_
    cases hm
  | ok members =>
    dsimp only
    cases hsource : applySourceTimestampRecord s.sourceTimestamps record members with
    | error e =>
      refine iff_of_false (fun h => by cases h)
        fun ⟨_, _, _, _, _, r, ⟨m, hm, t, ht, _⟩, _⟩ => ?_
      cases hm
      rw [hsource] at ht
      cases ht
    | ok timestamps =>
      dsimp only
      cases hmismatch : timestampsMismatch promised record with
      | true =>
        refine iff_of_false (fun h => by simp at h) fun ⟨_, _, _, h, _⟩ => by cases h
      | false =>
        simp only [Bool.false_eq_true, if_false]
        by_cases hmem : record.context.pollId ∈ s.seen.map Prod.fst
        · rw [if_pos hmem]
          exact iff_of_false (fun h => by cases h) fun ⟨_, _, _, _, h, _⟩ => h hmem
        · rw [if_neg hmem, assign_new hmem, ← hgap.1]
          constructor
          · intro h
            refine ⟨hfirst, rfl, hgap.2, trivial, hmem, ⟨members, timestamps⟩,
              ⟨members, rfl, timestamps, hsource, rfl⟩, ?_⟩
            simpa using (congrArg Prod.fst h).symm
          · rintro ⟨-, -, -, -, -, r, ⟨m, hm, t, ht, rfl⟩, rfl⟩
            cases hm
            rw [hsource] at ht
            cases ht
            simp

theorem checkRecords_append (later : List Record) :
    checkRecords promised s (records ++ later) =
      match checkRecords promised s records with
      | (s', some e) => (s', some e)
      | (s', none) => checkRecords promised s' later := by
  induction records generalizing s with
  | nil => rfl
  | cons record records ih =>
    rw [List.cons_append, checkRecords, checkRecords]
    rcases checkRecord promised s record with ⟨s', _ | e⟩
    · exact ih
    · rfl

/-- A log that passes can be continued with a record that does. -/
theorem checkRecords_concat {s'' : Checked} (h : checkRecords promised s records = (s', none))
    (hrecord : checkRecord promised s' record = (s'', none)) :
    checkRecords promised s (records ++ [record]) = (s'', none) := by
  rw [checkRecords_append, h]
  dsimp only
  unfold checkRecords
  rw [hrecord]
  rfl

/-- What a log that passes leaves in `seen`: its polls, each with its stream and sequence. -/
theorem seen_checkRecords (h : checkRecords promised s records = (s', none)) :
    s'.seen = s.seen ++ records.map fun record =>
      (record.context.pollId, some record.streamId, record.sequence) := by
  induction records generalizing s with
  | nil =>
    obtain rfl : s = s' := congrArg Prod.fst h
    rw [List.map_nil, List.append_nil]
  | cons record records ih =>
    unfold checkRecords at h
    rcases hrecord : checkRecord promised s record with ⟨s1, _ | e⟩
    · rw [hrecord] at h
      obtain ⟨-, -, -, -, -, r, -, hs1⟩ := checkRecord_eq_none.mp hrecord
      rw [ih h, hs1, List.append_assoc]
      rfl
    · rw [hrecord] at h
      cases h

/-- Promises that agree with the log do not change its check. -/
theorem checkRecords_promised (h : checkRecords [] s records = (s', none))
    (hpromised : ∀ record ∈ records, timestampsMismatch promised record = false) :
    checkRecords promised s records = (s', none) := by
  induction records generalizing s with
  | nil => exact h
  | cons record records ih =>
    obtain ⟨hfirst, hrest⟩ := List.forall_mem_cons.mp hpromised
    unfold checkRecords at h ⊢
    rcases hrecord : checkRecord [] s record with ⟨s1, _ | e⟩
    · rw [hrecord] at h
      obtain ⟨h1, h2, h3, -, h5⟩ := checkRecord_eq_none.mp hrecord
      rw [checkRecord_eq_none.mpr ⟨h1, h2, h3, hfirst, h5⟩]
      exact ih h hrest
    · rw [hrecord] at h
      cases h

end BkkCollector.Archive.PresenceStats
