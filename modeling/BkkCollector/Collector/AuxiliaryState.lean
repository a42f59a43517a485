import BkkCollector.Collector.PresenceGaps
import BkkCollector.Logic.Framing
import BkkCollector.Storage.RawLog

/-! # The auxiliary state of TripUpdates

Shapes, stops and trip modifications are neither rows nor presence; only the raw log keeps them. The
collector remembers the digest of the auxiliary entities of the last response it archived, and
archives a response whose digest is another one.

* `perm_of_digestInput`: the digest tells multisets of entities apart.
* `auxiliaryKept`: in every run in which no response with a changed auxiliary state is archived only
  behind a failed journal append, a response that parses is like the last one in the raw log, or its
  own archival failed.
* `not_auxiliaryKept`: behind a failed journal append the digest does not advance.
-/

namespace BkkCollector.Collector.AuxiliaryState

open BkkCollector.Python.Objects BkkCollector.Config BkkCollector.Monitoring BkkCollector.Logic.Framing
open BkkCollector.Collector.RawArchive BkkCollector.Collector.ProcessResult
open BkkCollector.Collector.Outcomes
open BkkCollector.Storage.RawLog (bigEndian ofBigEndian ofBigEndian_bigEndian length_bigEndian)
open BkkCollector.Collector.Evidence (lossy lossy_eq)
open BkkCollector.Collector.PresenceGaps (Driver Input handle handle_result)
open BkkCollector.Realtime.DedupFlow (defaultConfig)

/-! ### Digests -/

/-- A value behind its length. -/
def digestFormat : Format UInt8 where
  headSize := 8
  headSize_pos := by decide
  size head := some (ofBigEndian head)

theorem lengthPrefix_eq (n : ℕ) : lengthPrefix n = bigEndian 8 n := by
  simp [lengthPrefix, bigEndian, List.range, List.range.loop, Nat.div_div_eq_div_mul]

theorem digestInput_eq (values : List Bytes) :
    digestInput values =
      encode ((values.insertionSort (· ≤ ·)).map fun v => ⟨lengthPrefix v.length, v⟩) := by
  unfold digestInput encode
  rw [List.flatMap_map]
  rfl

/-- **The digest tells multisets apart**: it is read back as the sorted values. -/
theorem perm_of_digestInput {a b : List Bytes} (ha : ∀ v ∈ a, v.length < 2 ^ 64)
    (hb : ∀ v ∈ b, v.length < 2 ^ 64) (h : digestInput a = digestInput b) : a.Perm b := by
  have hframes : ∀ values : List Bytes, (∀ v ∈ values, v.length < 2 ^ 64) →
      chain digestFormat (digestInput values) =
        ((values.insertionSort (· ≤ ·)).map fun v => ⟨lengthPrefix v.length, v⟩, []) := by
    intro values hvalues
    rw [digestInput_eq, ← List.append_nil (encode _)]
    refine chain_encode (fun f hf => ?_) next_nil
    obtain ⟨v, hv, rfl⟩ := List.mem_map.mp hf
    have hsize := hvalues v ((List.perm_insertionSort _ _).mem_iff.mp hv)
    refine ⟨?_, ?_⟩
    · rw [lengthPrefix_eq]
      exact length_bigEndian 8 _
    · have hlength : ofBigEndian (lengthPrefix v.length) = v.length := by
        rw [lengthPrefix_eq]
        exact ofBigEndian_bigEndian hsize
      exact congrArg some hlength
  have hsorted : (a.insertionSort (· ≤ ·)).map (fun v => (⟨lengthPrefix v.length, v⟩ : Frame UInt8)) =
      (b.insertionSort (· ≤ ·)).map fun v => ⟨lengthPrefix v.length, v⟩ := by
    have ha' := hframes a ha
    rw [h, hframes b hb] at ha'
    exact (congrArg Prod.fst ha').symm
  have hsame : a.insertionSort (· ≤ ·) = b.insertionSort (· ≤ ·) := by
    have hpayloads := congrArg (List.map Frame.payload) hsorted
    simpa [List.map_map, Function.comp_def] using hpayloads
  exact (List.perm_insertionSort _ a).symm.trans (hsame ▸ List.perm_insertionSort _ b)

/-! ### One archival -/

/-- A successful append to the raw log. -/
def Stores : StorageEvent → Prop
  | .rawAppend _ _ _ (.ok ()) => True
  | _ => False

/-- An archival to this log that failed: the append, or the repair of the log before it. -/
def FailsRaw (path : RawPath) : StorageEvent → Prop
  | .rawAppend _ _ _ (.error _) => True
  | .rawRepair p (.error _) => p = path
  | _ => False

/-- The repairs go through the paths that need one. -/
def Orderly (plan : Plan) : Prop :=
  ∀ attempt paths path, path ∈ plan.iterate attempt paths ↔ path ∈ paths

/-- Does an archival to this log go well: its repair, if it needs one, and its append. -/
def archives (plan : Plan) (attempt : Attempt) (path : RawPath) (pending : Bool) : Bool :=
  (!pending || (plan.repair attempt path).isOk) && (plan.append attempt).isOk

theorem repairPending_outcome (plan : Plan) (attempt : Attempt) (path : RawPath)
    (pending : List RawPath) (memory : RawMemory) (trace : Trace) :
    After (repairPending plan.raw attempt path pending memory) trace fun r new =>
      Adds (fun ev => ¬ Stores ev) trace new ∧
        r.2.isOk = (decide (path ∉ pending) || (plan.repair attempt path).isOk) ∧
        (r.2.isOk = false → ∃ ev ∈ new, FailsRaw path ev) := by
  induction pending generalizing memory trace with
  | nil => exact ⟨Adds.refl, rfl, fun h => by cases h⟩
  | cons pendingPath pending ih =>
    rw [repairPending]
    split
    · next hfeed =>
      have hne : path ≠ pendingPath := fun h => hfeed (h ▸ rfl)
      refine (ih memory trace).mono fun r new h => ⟨h.1, ?_, h.2.2⟩
      rw [h.2.1]
      simp [hne]
    · refine After.bind (Q := fun r new => r = plan.repair attempt pendingPath ∧
        new = trace ++ [.rawRepair pendingPath r]) ⟨rfl, rfl⟩ ?_
      rintro r new ⟨hr, rfl⟩
      cases r with
      | error e =>
        dsimp only
        split
        · next heq =>
          subst heq
          refine ⟨Adds.one id, ?_, fun _ => ⟨_, mem_concat, rfl⟩⟩
          rw [← hr]
          simp
          rfl
        · next hne =>
          refine (ih memory _).mono fun r new h => ⟨(Adds.one id).trans h.1, ?_, h.2.2⟩
          rw [h.2.1]
          simp [Ne.symm hne]
      | ok sidecar =>
        refine (ih (memory.repaired pendingPath) _).mono fun r new h =>
          ⟨(Adds.one id).trans h.1, ?_, h.2.2⟩
        rw [h.2.1]
        by_cases hpath : path = pendingPath
        · subst hpath
          rw [← hr]
          simp
          exact fun _ => rfl
        · simp [hpath]

/-- What one archival came to. -/
structure Archival (plan : Plan) (attempt : Attempt) (path : RawPath) (memory : RawMemory)
    (trace : Trace) (r : RawMemory × RawOutcome) (new : Trace) : Prop where
  archived : r.2.archived = archives plan attempt path (decide (path ∈ memory.rawNeedsRepair))
  ok : r.2.archived = true → r.2.ok = true
  sub : trace ⊆ new
  stores : r.2.archived = true → ∃ ev ∈ new, Stores ev
  quiet : r.2.archived = false → Adds (fun ev => ¬ Stores ev) trace new
  fails : r.2.archived = false → (∃ ev ∈ new, FailsRaw path ev) ∧ path ∈ r.1.rawNeedsRepair

theorem mem_needRepair (memory : RawMemory) (path : RawPath) :
    path ∈ (memory.needRepair path).rawNeedsRepair :=
  List.mem_insert_self

/-- **One archival**: what is not due is left alone. -/
theorem archiveRaw_outcome (c : CollectorConfig) {plan : Plan} (horder : Orderly plan)
    (attempt : Attempt) (memory : RawMemory) (path : RawPath) (timestamp : ℚ) (payload : Bytes)
    (force : Bool) (trace : Trace) :
    After (archiveRaw c plan.raw attempt memory path timestamp payload force) trace fun r new =>
      if force || isDue c memory path.feed (plan.monotonic attempt) then
        Archival plan attempt path memory trace r new
      else r = (memory, { archived := false, ok := true }) ∧ new = trace := by
  unfold archiveRaw
  refine After.bind (Q := fun now new => now = plan.monotonic attempt ∧ new = trace) ⟨rfl, rfl⟩ ?_
  rintro now new ⟨rfl, rfl⟩
  by_cases hdue : (force || isDue c memory path.feed (plan.monotonic attempt)) = true
  · simp only [hdue, Bool.not_true, Bool.false_eq_true, if_false, if_true]
    refine After.bind (repairPending_outcome plan attempt path _ memory new) ?_
    rintro ⟨memory', repairs⟩ new' ⟨hadds, hrepairs, hfails⟩
    have hpending : decide (path ∉ plan.raw.iterate attempt memory.rawNeedsRepair) =
        !decide (path ∈ memory.rawNeedsRepair) := by
      rw [← decide_not]
      exact decide_eq_decide.mpr (not_congr (horder attempt _ path))
    rw [hpending] at hrepairs
    cases repairs with
    | error e =>
      have hnot : archives plan attempt path (decide (path ∈ memory.rawNeedsRepair)) = false := by
        unfold archives
        rw [← hrepairs]
        rfl
      exact
        { archived := hnot.symm
          ok := fun h => by cases h
          sub := hadds.subset
          stores := fun h => by cases h
          quiet := fun _ => hadds
          fails := fun _ => ⟨hfails rfl, mem_needRepair _ _⟩ }
    | ok u =>
      have hok : archives plan attempt path (decide (path ∈ memory.rawNeedsRepair)) =
          (plan.append attempt).isOk := by
        unfold archives
        rw [← hrepairs]
        rfl
      refine After.bind (Q := fun r new => r = plan.append attempt ∧
        new = new' ++ [.rawAppend path timestamp payload r]) ⟨rfl, rfl⟩ ?_
      rintro r new'' ⟨hr, rfl⟩
      rw [← hr] at hok
      cases r with
      | error e =>
        have hadds' : Adds (fun ev => ¬ Stores ev) new
            (new' ++ [.rawAppend path timestamp payload (.error e)]) := hadds.trans (Adds.one id)
        exact
          { archived := hok.symm
            ok := fun h => by cases h
            sub := hadds'.subset
            stores := fun h => by cases h
            quiet := fun _ => hadds'
            fails := fun _ => ⟨⟨_, mem_concat, trivial⟩, mem_needRepair _ _⟩ }
      | ok u =>
        exact
          { archived := hok.symm
            ok := fun _ => rfl
            sub := fun ev hev => List.mem_append_left _ (hadds.subset hev)
            stores := fun _ => ⟨_, mem_concat, trivial⟩
            quiet := fun h => by cases h
            fails := fun h => by cases h }
  · simp only [hdue, Bool.not_false, if_true]
    exact ⟨rfl, rfl⟩

/-! ### One response -/

section response

variable {c : CollectorConfig} {lib : Libraries} {plan : Plan} {result : FetchResult}
  {payload : Bytes} {pending early tried : Bool} {s : CollectorState} {raw : RawOutcome}
  {trace : Trace}

/-- While a response is processed: `early` says whether it is archived, `tried` whether its archival
was tried, and `pending` whether its log needed a repair before that. -/
structure Progress (lib : Libraries) (result : FetchResult) (pending early tried : Bool)
    (s : CollectorState) (raw : RawOutcome) (trace : Trace) : Prop where
  archived : raw.archived = early
  ok : early = true → raw.ok = true
  stores : early = true → ∃ ev ∈ trace, Stores ev
  quiet : early = false → ∀ ev ∈ trace, ¬ Stores ev
  fails : early = false → tried = true → ∃ ev ∈ trace, FailsRaw (rawPath lib result) ev
  pending : early = false →
    decide (rawPath lib result ∈ s.raw.rawNeedsRepair) = (tried || pending)

/-- Events that have nothing to do with the raw log. -/
theorem Progress.adds (h : Progress lib result pending early tried s raw trace) {t : CollectorState}
    {new : Trace} {p : StorageEvent → Prop} (hp : ∀ ev, p ev → ¬ Stores ev)
    (hadds : Adds p trace new) (hraw : t.raw = s.raw) :
    Progress lib result pending early tried t raw new where
  archived := h.archived
  ok := h.ok
  stores hearly := by
    obtain ⟨ev, hev, hstores⟩ := h.stores hearly
    exact ⟨ev, hadds.subset hev, hstores⟩
  quiet hearly ev hev := (hadds.mem hev).elim (h.quiet hearly ev) (hp ev)
  fails hearly htried := by
    obtain ⟨ev, hev, hfails⟩ := h.fails hearly htried
    exact ⟨ev, hadds.subset hev, hfails⟩
  pending hearly := by rw [hraw, h.pending hearly]

/-- **An archival that is due** for a response that is not archived. -/
theorem Progress.archival (h : Progress lib result pending false tried s raw trace)
    {attempt : Attempt} {r : RawMemory × RawOutcome} {new : Trace}
    (ha : Archival plan attempt (rawPath lib result) s.raw trace r new) :
    Progress lib result pending (archives plan attempt (rawPath lib result) (tried || pending)) true
      { s with raw := r.1 } r.2 new := by
  have harchived := ha.archived
  rw [h.pending rfl] at harchived
  exact
    { archived := harchived
      ok := fun hearly => ha.ok (harchived.trans hearly)
      stores := fun hearly => ha.stores (harchived.trans hearly)
      quiet := fun hearly ev hev =>
        ((ha.quiet (harchived.trans hearly)).mem hev).elim (h.quiet rfl ev) id
      fails := fun hearly _ => (ha.fails (harchived.trans hearly)).1
      pending := fun hearly => by
        rw [Bool.true_or]
        exact decide_eq_true (ha.fails (harchived.trans hearly)).2 }

/-- The regular archival. -/
theorem Progress.archive (horder : Orderly plan)
    (h : Progress lib result pending false false s raw trace) :
    After (archive c lib plan.ops .regular s result payload false) trace fun r new =>
      (∃ raw, r.1 = { s with raw }) ∧
      Progress lib result pending
        (isDue c s.raw result.feedName (plan.monotonic .regular) &&
          archives plan .regular (rawPath lib result) pending)
        (isDue c s.raw result.feedName (plan.monotonic .regular)) r.1 r.2 new := by
  refine After.bind (archiveRaw_outcome c horder .regular s.raw (rawPath lib result) _ payload false
    trace) ?_
  rintro ⟨memory, outcome⟩ new hout
  rw [Bool.false_or] at hout
  refine ⟨⟨memory, rfl⟩, ?_⟩
  change Progress lib result pending _ _ { s with raw := memory } outcome new
  split at hout
  · next hdue =>
    rw [show isDue c s.raw result.feedName (plan.monotonic .regular) = true from hdue]
    simpa using h.archival hout
  · next hdue =>
    rw [show isDue c s.raw result.feedName (plan.monotonic .regular) = false from
      Bool.eq_false_iff.mpr hdue]
    obtain ⟨hr, rfl⟩ := hout
    cases hr
    exact ⟨rfl, nofun, h.stores, h.quiet, h.fails, h.pending⟩

/-- A forced archival, which is left out where the response is archived. -/
theorem Progress.archiveUnless (horder : Orderly plan)
    (h : Progress lib result pending early tried s raw trace) (attempt : Attempt) (needed : Bool) :
    After (archiveUnless c lib plan.ops attempt s result payload needed raw) trace fun r new =>
      (∃ raw, r.1 = { s with raw }) ∧
      Progress lib result pending
        (early || needed && archives plan attempt (rawPath lib result) (tried || pending))
        (tried || needed) r.1 r.2 new := by
  unfold ProcessResult.archiveUnless
  rw [h.archived]
  cases early with
  | true =>
    rw [Bool.not_true, Bool.and_false, Bool.true_or]
    refine ⟨⟨s.raw, rfl⟩, ?_⟩
    exact ⟨h.archived, h.ok, h.stores, h.quiet, nofun, nofun⟩
  | false =>
    cases needed with
    | false =>
      rw [Bool.false_and, Bool.false_and, Bool.or_false, Bool.or_false]
      exact ⟨⟨s.raw, rfl⟩, h⟩
    | true =>
      simp only [Bool.not_false, Bool.and_true, if_true, Bool.false_or, Bool.true_and, Bool.or_true]
      refine After.bind (archiveRaw_outcome c horder attempt s.raw (rawPath lib result) _ payload
        true trace) ?_
      rintro ⟨memory, outcome⟩ new hout
      rw [Bool.true_or, if_pos rfl] at hout
      exact ⟨⟨memory, rfl⟩, h.archival hout⟩

/-- Is the response archived before its health write. -/
def archivedEarly (c : CollectorConfig) (lib : Libraries) (plan : Plan) (s : CollectorState)
    (result : FetchResult) (payload : Bytes) : Bool :=
  let path := rawPath lib result
  let pending := decide (path ∈ s.raw.rawNeedsRepair)
  let due := isDue c s.raw result.feedName (plan.monotonic .regular)
  let changed := auxiliaryChanged lib s result (parsePayload lib result payload)
  due && archives plan .regular path pending ||
    changed && archives plan .auxiliary path (due || pending) ||
    lossy lib plan s result (parsePayload lib result payload) &&
      archives plan .fallback path (due || changed || pending)

/-- Is the response archived by the fallback behind a failed journal append, and not before. -/
def archivedLate (c : CollectorConfig) (lib : Libraries) (plan : Plan) (s : CollectorState)
    (result : FetchResult) (payload : Bytes) : Bool :=
  let path := rawPath lib result
  let pending := decide (path ∈ s.raw.rawNeedsRepair)
  let due := isDue c s.raw result.feedName (plan.monotonic .regular)
  let changed := auxiliaryChanged lib s result (parsePayload lib result payload)
  let lost := lossy lib plan s result (parsePayload lib result payload)
  plan.health.isOk && !plan.journal.isOk && !archivedEarly c lib plan s result payload &&
    archives plan .journalFallback path (due || changed || lost || pending)

/-- **The fallback behind the journal**: it archives what is neither journalled nor archived. -/
theorem Progress.journalFallback (horder : Orderly plan)
    (h : Progress lib result pending early tried s raw trace) (appended : Bool) :
    After (journalFallback c lib plan.ops s result payload appended raw.archived) trace fun r new =>
      (∃ raw, r = { s with raw }) ∧ trace ⊆ new ∧
      ((∃ ev ∈ new, Stores ev) ↔ early = true ∨ (!appended && !early &&
        archives plan .journalFallback (rawPath lib result) (tried || pending)) = true) := by
  unfold ProcessResult.journalFallback
  rw [h.archived]
  by_cases hrun : (!appended && !early) = true
  · simp only [hrun, if_true, Bool.true_and]
    obtain rfl : early = false := by simpa using (Bool.and_eq_true_iff.mp hrun).2
    refine After.bind (Q := fun r new => ∃ memory, r.1 = { s with raw := memory } ∧
      Archival plan .journalFallback (rawPath lib result) s.raw trace (memory, r.2) new) ?_ ?_
    · refine After.bind (archiveRaw_outcome c horder .journalFallback s.raw (rawPath lib result) _
        payload true trace) ?_
      rintro ⟨memory, outcome⟩ new hout
      rw [Bool.true_or, if_pos rfl] at hout
      exact ⟨memory, rfl, hout⟩
    · rintro ⟨t, outcome⟩ new ⟨memory, rfl, hout⟩
      have hprogress := h.archival hout
      refine ⟨⟨memory, rfl⟩, hout.sub, ?_⟩
      rw [or_iff_right Bool.false_ne_true]
      constructor
      · rintro ⟨ev, hev, hstores⟩
        by_contra hnot
        exact hprogress.quiet (Bool.eq_false_iff.mpr hnot) ev hev hstores
      · exact hprogress.stores
  · simp only [hrun, Bool.false_eq_true, if_false, Bool.false_and, or_false]
    refine ⟨⟨s.raw, rfl⟩, List.Subset.refl _, ?_⟩
    constructor
    · rintro ⟨ev, hev, hstores⟩
      by_contra hnot
      exact h.quiet (Bool.eq_false_iff.mpr hnot) ev hev hstores
    · exact h.stores

/-- **The end of a response.** -/
theorem Progress.finish (horder : Orderly plan)
    (h : Progress lib result pending early tried s raw trace) (parsed : Parsed) (changed : Bool)
    (presence : PresenceOutcome) (tracked : Realtime.Dedup.Tracked) :
    After (finish c lib plan.ops s result payload parsed changed presence tracked raw) trace
      fun r new =>
        r.1.archivedTripAuxiliarySha256 = s.archivedTripAuxiliarySha256 ∧ trace ⊆ new ∧
        ((∃ ev ∈ new, Stores ev) ↔
          early = true ∨ (plan.health.isOk && !plan.journal.isOk && !early &&
            archives plan .journalFallback (rawPath lib result) (tried || pending)) = true) := by
  unfold ProcessResult.finish
  refine After.bind (Q := fun r new => r = plan.health ∧
    ∃ monitor, new = trace ++ [.health monitor r]) ⟨rfl, _, rfl⟩ ?_
  rintro r new ⟨hr, monitor, rfl⟩
  have hadds : Adds (fun ev => ¬ Stores ev) trace (trace ++ [.health monitor r]) := Adds.one id
  rw [← hr]
  cases r with
  | error e =>
    have hend := h.adds (fun ev hev => hev) hadds rfl
    refine ⟨rfl, hadds.subset, ?_⟩
    simp only [Except.isOk, Except.toBool, Bool.false_and, Bool.false_eq_true, or_false]
    constructor
    · rintro ⟨ev, hev, hstores⟩
      by_contra hnot
      exact hend.quiet (Bool.eq_false_iff.mpr hnot) ev hev hstores
    · exact hend.stores
  | ok u =>
    refine (appendEvent_after lib plan _ result _ _).bind ?_
    rintro ⟨s', appended⟩ new ⟨⟨monitor', hs'⟩, happended, hnew⟩
    obtain rfl : s' = _ := hs'
    obtain rfl : appended = plan.journal.isOk := happended
    have hadds' : Adds (fun ev => ¬ Stores ev) trace new := by
      rw [hnew]
      exact hadds.trans (Adds.one id)
    have hend : Progress lib result pending early tried { s with monitor := monitor' } raw new :=
      h.adds (fun ev hev => hev) hadds' rfl
    refine (hend.journalFallback horder plan.journal.isOk).bind ?_
    rintro r new' ⟨⟨memory, rfl⟩, hsub, hstores⟩
    exact ⟨rfl, fun ev hev => hsub (hadds'.subset hev), hstores⟩

/-- The signature advances where the response is archived. -/
theorem advanceAuxiliary_eq (lib : Libraries) (s : CollectorState) (result : FetchResult) (parsed : Parsed)
    (raw : RawOutcome) :
    (advanceAuxiliary lib s result parsed raw).raw = s.raw ∧
    (advanceAuxiliary lib s result parsed raw).archivedTripAuxiliarySha256 =
      if raw.archived && raw.ok then
        (auxiliarySha256 lib result parsed).or s.archivedTripAuxiliarySha256
      else s.archivedTripAuxiliarySha256 := by
  unfold advanceAuxiliary
  cases auxiliarySha256 lib result parsed with
  | none => exact ⟨rfl, by simp⟩
  | some digest => cases raw.archived && raw.ok <;> exact ⟨rfl, rfl⟩

/-- **A whole response**: where it is archived, where its signature goes, and what a changed
auxiliary state leaves behind. -/
theorem processPayload_auxiliary (horder : Orderly plan) (hquiet : ∀ ev ∈ trace, ¬ Stores ev) :
    After (processPayload c lib plan.ops s result payload) trace fun r new =>
      r.1.archivedTripAuxiliarySha256 =
        (if archivedEarly c lib plan s result payload then
          (auxiliarySha256 lib result (parsePayload lib result payload)).or
            s.archivedTripAuxiliarySha256
        else s.archivedTripAuxiliarySha256) ∧
      ((∃ ev ∈ new, Stores ev) ↔ archivedEarly c lib plan s result payload = true ∨
        archivedLate c lib plan s result payload = true) ∧
      (auxiliaryChanged lib s result (parsePayload lib result payload) = true →
        archivedEarly c lib plan s result payload = false →
        ∃ ev ∈ new, FailsRaw (rawPath lib result) ev) := by
  have h0 : Progress lib result (decide (rawPath lib result ∈ s.raw.rawNeedsRepair)) false false s
      { archived := false, ok := true } trace :=
    ⟨rfl, nofun, nofun, fun _ => hquiet, nofun, fun _ => rfl⟩
  unfold processPayload
  refine (h0.archive horder).bind ?_
  rintro ⟨s1, raw1⟩ t1 ⟨⟨memory1, hs1⟩, h1⟩
  obtain rfl : s1 = _ := hs1
  refine (h1.archiveUnless horder .auxiliary _).bind ?_
  rintro ⟨s2, raw2⟩ t2 ⟨⟨memory2, hs2⟩, h2⟩
  obtain rfl : s2 = _ := hs2
  refine (observePresence_after lib plan _ result _ t2).bind ?_
  rintro ⟨s3, presence⟩ t3 ⟨p, evs, hs3, rfl, hstep⟩
  obtain rfl : s3 = _ := hs3
  have h3 : Progress lib result _ _ _ { s with raw := memory2, presence := p } raw2 (t2 ++ evs) :=
    h2.adds (fun ev => by cases ev <;> simp [StorageEvent.IsPresence, Stores])
      (⟨evs, rfl, hstep.isPresence⟩ : Adds StorageEvent.IsPresence t2 (t2 ++ evs)) rfl
  refine (trackRows_after lib plan _ result _ _).bind ?_
  rintro ⟨s4, tracked⟩ t4 ⟨⟨trackers, hs4⟩, hadds, htracked⟩
  obtain rfl : s4 = _ := hs4
  have h4 : Progress lib result _ _ _ { s with raw := memory2, presence := p, trackers := trackers }
      raw2 t4 :=
    h3.adds (fun ev => by cases ev <;> simp [StorageEvent.IsStage, Stores]) hadds rfl
  refine (h4.archiveUnless horder .fallback _).bind ?_
  rintro ⟨s5, raw5⟩ t5 ⟨⟨memory5, hs5⟩, h5⟩
  obtain rfl : s5 = _ := hs5
  have hlossy : (!(parsePayload lib result payload).ok || !trackedOk tracked || !presence.ok) =
      lossy lib plan s result (parsePayload lib result payload) :=
    lossy_eq lib plan s result hstep htracked
  have hearly : raw5.archived = archivedEarly c lib plan s result payload := by
    rw [h5.archived, hlossy]
    rfl
  obtain ⟨hraw, hsignature⟩ := advanceAuxiliary_eq lib
    { s with raw := memory5, presence := p, trackers := trackers } result
    (parsePayload lib result payload) raw5
  have h6 := h5.adds (fun ev hev => hev) (Adds.refl (p := fun ev => ¬ Stores ev)) hraw
  refine (h6.finish horder _ _ presence tracked).mono ?_
  rintro r new ⟨hsame, hsub, hstores⟩
  refine ⟨?_, ?_, fun hchanged hnot => ?_⟩
  · have hok : (raw5.archived && raw5.ok) = archivedEarly c lib plan s result payload := by
      rw [← hearly]
      cases harchived : raw5.archived with
      | false => rfl
      | true => exact h5.ok (h5.archived.symm.trans harchived)
    rw [hsame, ← hok]
    exact hsignature
  · rw [← h5.archived, hearly, hlossy] at hstores
    exact hstores
  · obtain ⟨ev, hev, hfails⟩ := h5.fails (h5.archived.symm.trans (hearly.trans hnot)) (by simp [hchanged])
    exact ⟨ev, hsub hev, hfails⟩

/-- A response without a payload leaves the signature alone. -/
theorem processFailure_auxiliary :
    After (processFailure lib plan.ops s result) trace fun r _ =>
      r.1.archivedTripAuxiliarySha256 = s.archivedTripAuxiliarySha256 := by
  have hgap : (s.gap result.feedName "http_observation_gap").archivedTripAuxiliarySha256 =
      s.archivedTripAuxiliarySha256 := by
    unfold CollectorState.gap
    split <;> rfl
  unfold processFailure
  refine After.bind (Q := fun r new => r = plan.health ∧
    ∃ monitor, new = trace ++ [.health monitor r]) ⟨rfl, _, rfl⟩ ?_
  rintro r new ⟨-, monitor, rfl⟩
  cases r with
  | error e => exact hgap
  | ok u =>
    refine (appendEvent_after lib plan _ result _ _).bind ?_
    rintro ⟨s', appended⟩ new ⟨⟨monitor', hs'⟩, -, rfl⟩
    obtain rfl : s' = _ := hs'
    exact hgap

/-- `process_result`, for a response with a payload. -/
theorem process_auxiliary (c : CollectorConfig) (lib : Libraries) (s : CollectorState)
    (horder : Orderly plan) (hpayload : result.payload = some payload) :
    (process c lib plan s result).1.1.archivedTripAuxiliarySha256 =
      (if archivedEarly c lib plan s result payload then
        (auxiliarySha256 lib result (parsePayload lib result payload)).or
          s.archivedTripAuxiliarySha256
      else s.archivedTripAuxiliarySha256) ∧
    ((∃ ev ∈ (process c lib plan s result).2, Stores ev) ↔
      archivedEarly c lib plan s result payload = true ∨
        archivedLate c lib plan s result payload = true) ∧
    (auxiliaryChanged lib s result (parsePayload lib result payload) = true →
      archivedEarly c lib plan s result payload = false →
      ∃ ev ∈ (process c lib plan s result).2, FailsRaw (rawPath lib result) ev) := by
  change After (processResult c lib plan.ops s result) [] fun r new =>
    r.1.archivedTripAuxiliarySha256 =
      (if archivedEarly c lib plan s result payload then
        (auxiliarySha256 lib result (parsePayload lib result payload)).or
          s.archivedTripAuxiliarySha256
      else s.archivedTripAuxiliarySha256) ∧
    ((∃ ev ∈ new, Stores ev) ↔ archivedEarly c lib plan s result payload = true ∨
      archivedLate c lib plan s result payload = true) ∧
    (auxiliaryChanged lib s result (parsePayload lib result payload) = true →
      archivedEarly c lib plan s result payload = false →
      ∃ ev ∈ new, FailsRaw (rawPath lib result) ev)
  refine (writeRunMetadata_after plan s []).bind ?_
  rintro s0 t0 ⟨⟨written, rfl⟩, hadds⟩
  rw [hpayload]
  refine processPayload_auxiliary horder fun ev hev => ?_
  have hmetadata := (hadds.mem hev).resolve_left List.not_mem_nil
  rw [hmetadata]
  exact id

theorem process_auxiliary_none (c : CollectorConfig) (lib : Libraries) (plan : Plan)
    (s : CollectorState) (hpayload : result.payload = none) :
    (process c lib plan s result).1.1.archivedTripAuxiliarySha256 =
      s.archivedTripAuxiliarySha256 := by
  change After (processResult c lib plan.ops s result) [] fun r _ =>
    r.1.archivedTripAuxiliarySha256 = s.archivedTripAuxiliarySha256
  refine (writeRunMetadata_after plan s []).bind ?_
  rintro s0 t0 ⟨⟨written, rfl⟩, -⟩
  rw [hpayload]
  exact processFailure_auxiliary

end response

/-! ### Runs -/

/-- The auxiliary entities of a message. -/
def auxiliaryEntities (message : FeedMessage) : List Bytes :=
  (message.entities.filter fun e => e.payloads.any (· ∈ auxiliaryPayloads)).map Entity.deterministic

/-- The auxiliary entities of a TripUpdates response that parses. -/
def auxiliaryOf (lib : Libraries) (result : FetchResult) : Option (List Bytes) :=
  result.payload.bind fun payload =>
    let parsed := parsePayload lib result payload
    if result.feedName = .tripupdates ∧ parsed.ok then parsed.feed.map auxiliaryEntities else none

theorem auxiliarySha256_eq {lib : Libraries} {result : FetchResult} {payload : Bytes}
    (hpayload : result.payload = some payload) :
    auxiliarySha256 lib result (parsePayload lib result payload) =
      (auxiliaryOf lib result).map fun aux => lib.sha256 (digestInput aux) := by
  unfold auxiliarySha256 auxiliaryOf
  rw [hpayload, Option.bind_some]
  dsimp only
  split
  · rw [Option.map_map]
    rfl
  · rfl

instance : DecidablePred Stores
  | .rawAppend _ _ _ (.ok ()) => isTrue trivial
  | .rawAppend _ _ _ (.error _) | .rawRepair .. | .runMetadata .. | .presence .. | .stage ..
  | .health .. | .journal .. => isFalse id

/-- A run: the collector, and the auxiliary entities of the last TripUpdates response that parsed and
was appended to the raw log. -/
structure World where
  state : CollectorState
  archived : Option (List Bytes) := none

/-- The last response in the raw log, after an input with this trace. -/
def lastArchived (lib : Libraries) (archived : Option (List Bytes)) (trace : Trace) :
    Input → Option (List Bytes)
  | .result _ _ result => if ∃ ev ∈ trace, Stores ev then (auxiliaryOf lib result).or archived
    else archived
  | _ => archived

/-- One input. -/
def World.step (c : CollectorConfig) (lib : Libraries) (w : World) (input : Input) : World :=
  { state := (handle c lib w.state input).1
    archived := lastArchived lib w.archived (handle c lib w.state input).2 input }

/-- **The auxiliary state is kept**: a TripUpdates response that parses is like the last one in the
raw log, up to the order of its entities, or its own archival failed. -/
def Kept (c : CollectorConfig) (lib : Libraries) (w : World) (input : Input) : Prop :=
  ∀ driver plan result aux, input = .result driver plan result →
    auxiliaryOf lib result = some aux →
    (∃ ev ∈ (handle c lib w.state input).2, FailsRaw (rawPath lib result) ev) ∨
      ∃ last, (w.step c lib input).archived = some last ∧ last.Perm aux

/-- The condition on an input: a response with a changed auxiliary state is not archived only behind
a failed journal append. -/
def Timely (c : CollectorConfig) (lib : Libraries) (s : CollectorState) : Input → Prop
  | .result _ plan result => ∀ payload, result.payload = some payload →
      auxiliaryChanged lib s result (parsePayload lib result payload) = true →
      archivedLate c lib plan s result payload = false
  | _ => True

/-- What the code outside of this model promises for the responses of a run: protobuf values are
smaller than `2 ^ 64` bytes, and no two of the digests collide. -/
structure Promises (lib : Libraries) (inputs : List Input) : Prop where
  order : ∀ driver plan result, .result driver plan result ∈ inputs → Orderly plan
  size : ∀ payload message, lib.parseFeed payload = .ok message →
    ∀ e ∈ message.entities, e.deterministic.length < 2 ^ 64
  sha256 : ∀ driver plan result aux driver' plan' result' aux',
    .result driver plan result ∈ inputs → auxiliaryOf lib result = some aux →
    .result driver' plan' result' ∈ inputs → auxiliaryOf lib result' = some aux' →
    lib.sha256 (digestInput aux) = lib.sha256 (digestInput aux') → digestInput aux = digestInput aux'

/-- The invariant: the signature is that of the last response in the raw log, which was one of the
inputs. -/
def Signed (lib : Libraries) (inputs : List Input) (w : World) : Prop :=
  ∀ digest, w.state.archivedTripAuxiliarySha256 = some digest → ∃ aux, w.archived = some aux ∧
    digest = lib.sha256 (digestInput aux) ∧
    ∃ driver plan result, .result driver plan result ∈ inputs ∧ auxiliaryOf lib result = some aux

theorem gap_auxiliary (s : CollectorState) (feed : Feed) (reason : String) :
    (s.gap feed reason).archivedTripAuxiliarySha256 = s.archivedTripAuxiliarySha256 := by
  unfold CollectorState.gap
  split <;> rfl

/-- Handling a response: the signature is that of its processing. -/
theorem handle_auxiliary (c : CollectorConfig) (lib : Libraries) (s : CollectorState)
    (driver : Driver) (plan : Plan) (result : FetchResult) :
    (handle c lib s (.result driver plan result)).2 = (process c lib plan s result).2 ∧
    (handle c lib s (.result driver plan result)).1.archivedTripAuxiliarySha256 =
      (process c lib plan s result).1.1.archivedTripAuxiliarySha256 := by
  obtain ⟨htrace, hstate⟩ := handle_result c lib s driver plan result
  refine ⟨htrace, ?_⟩
  rcases hstate with hstate | hstate
  · rw [hstate]
  · rw [hstate, gap_auxiliary]

/-- The auxiliary entities of a response are those of a message that parsed. -/
theorem message_of_auxiliaryOf {lib : Libraries} {result : FetchResult} {aux : List Bytes}
    (h : auxiliaryOf lib result = some aux) :
    ∃ payload message, lib.parseFeed payload = .ok message ∧ aux = auxiliaryEntities message := by
  obtain ⟨payload, -, h⟩ := Option.bind_eq_some_iff.mp h
  dsimp only at h
  split at h
  · obtain ⟨message, hmessage, rfl⟩ := Option.map_eq_some_iff.mp h
    refine ⟨payload, message, ?_, rfl⟩
    unfold parsePayload at hmessage
    cases hfeed : lib.parseFeed payload with
    | error e =>
      rw [hfeed] at hmessage
      cases hmessage
    | ok message' =>
      rw [hfeed] at hmessage
      simp only at hmessage
      split at hmessage
      · cases hmessage
        rfl
      · split at hmessage
        · cases hmessage
          rfl
        · cases hmessage
          rfl
  · cases h

theorem size_of_promises {lib : Libraries} {inputs : List Input} (hp : Promises lib inputs)
    {result : FetchResult} {aux : List Bytes} (h : auxiliaryOf lib result = some aux) :
    ∀ v ∈ aux, v.length < 2 ^ 64 := by
  obtain ⟨payload, message, hparse, rfl⟩ := message_of_auxiliaryOf h
  intro v hv
  obtain ⟨e, he, rfl⟩ := List.mem_map.mp hv
  exact hp.size payload message hparse e (List.mem_filter.mp he).1

/-- Where the signature of a response comes from, and what the raw log holds behind it. -/
theorem Signed.response {lib : Libraries} {inputs : List Input} (hp : Promises lib inputs)
    {w : World} (h : Signed lib inputs w) {driver : Driver} {plan : Plan} {result : FetchResult}
    (hmem : .result driver plan result ∈ inputs) {aux : List Bytes}
    (haux : auxiliaryOf lib result = some aux) {trace : Trace} {s : CollectorState}
    {changed early late : Bool}
    (hchanged : changed = decide (w.state.archivedTripAuxiliarySha256 ≠
      some (lib.sha256 (digestInput aux))))
    (hs : s.archivedTripAuxiliarySha256 = if early then some (lib.sha256 (digestInput aux))
      else w.state.archivedTripAuxiliarySha256)
    (hstores : (∃ ev ∈ trace, Stores ev) ↔ early = true ∨ late = true)
    (hfails : changed = true → early = false → ∃ ev ∈ trace, FailsRaw (rawPath lib result) ev)
    (htimely : changed = true → late = false) :
    ((∃ ev ∈ trace, FailsRaw (rawPath lib result) ev) ∨
      ∃ last, lastArchived lib w.archived trace (.result driver plan result) = some last ∧
        last.Perm aux) ∧
    Signed lib inputs ⟨s, lastArchived lib w.archived trace (.result driver plan result)⟩ := by
  have harchived : lastArchived lib w.archived trace (.result driver plan result) =
      if early = true ∨ late = true then some aux else w.archived := by
    rw [lastArchived, haux]
    exact if_congr hstores rfl rfl
  have hdone : ∀ digest, some (lib.sha256 (digestInput aux)) = some digest →
      ∃ aux', some aux = some aux' ∧ digest = lib.sha256 (digestInput aux') ∧
        ∃ driver plan result, .result driver plan result ∈ inputs ∧
          auxiliaryOf lib result = some aux' := by
    intro digest hdigest
    cases hdigest
    exact ⟨aux, rfl, rfl, driver, plan, result, hmem, haux⟩
  cases early with
  | true =>
    rw [harchived, if_pos (Or.inl rfl)]
    refine ⟨Or.inr ⟨aux, rfl, List.Perm.refl _⟩, fun digest hdigest => hdone digest ?_⟩
    exact hs.symm.trans hdigest
  | false =>
    have hsame : s.archivedTripAuxiliarySha256 = w.state.archivedTripAuxiliarySha256 := hs
    cases hcase : changed with
    | true =>
      have hlate := htimely hcase
      rw [harchived, if_neg (by rw [hlate]; decide)]
      exact ⟨Or.inl (hfails hcase rfl), fun digest hdigest => h digest (hsame.symm.trans hdigest)⟩
    | false =>
      have hdigest : w.state.archivedTripAuxiliarySha256 = some (lib.sha256 (digestInput aux)) := by
        rw [hcase] at hchanged
        simpa using hchanged.symm
      cases late with
      | true =>
        rw [harchived, if_pos (Or.inr rfl)]
        exact ⟨Or.inr ⟨aux, rfl, List.Perm.refl _⟩,
          fun digest h => hdone digest (hdigest.symm.trans (hsame.symm.trans h))⟩
      | false =>
        rw [harchived, if_neg (by decide)]
        refine ⟨Or.inr ?_, fun digest hdigest => h digest (hsame.symm.trans hdigest)⟩
        obtain ⟨last, hlast, hsha, driver', plan', result', hmem', haux'⟩ := h _ hdigest
        refine ⟨last, hlast, perm_of_digestInput (size_of_promises hp haux')
          (size_of_promises hp haux) ?_⟩
        exact (hp.sha256 driver plan result aux driver' plan' result' last hmem haux hmem' haux'
          hsha).symm

/-- **One input.** -/
theorem Signed.step {lib : Libraries} {inputs : List Input} (hp : Promises lib inputs) {w : World}
    (h : Signed lib inputs w) (c : CollectorConfig) {input : Input} (hmem : input ∈ inputs)
    (htimely : Timely c lib w.state input) :
    Kept c lib w input ∧ Signed lib inputs (w.step c lib input) := by
  cases input with
  | workerError driver feed =>
    refine ⟨fun _ _ _ _ hinput => ?_, fun digest hdigest => h digest ?_⟩
    · cases hinput
    · cases driver with
      | pollOnce => exact hdigest
      | _ => exact (gap_auxiliary w.state feed _).symm.trans hdigest
  | restart runId streamId feeds =>
    have hnone : (w.step c lib (.restart runId streamId feeds)).state.archivedTripAuxiliarySha256 =
        none := rfl
    refine ⟨fun _ _ _ _ hinput => ?_, fun digest hdigest => ?_⟩
    · cases hinput
    · rw [hnone] at hdigest
      cases hdigest
  | result driver plan result =>
    obtain ⟨htrace, hsignature⟩ := handle_auxiliary c lib w.state driver plan result
    have hother : auxiliaryOf lib result = none →
        (handle c lib w.state (.result driver plan result)).1.archivedTripAuxiliarySha256 =
          w.state.archivedTripAuxiliarySha256 →
        Kept c lib w (.result driver plan result) ∧
          Signed lib inputs (w.step c lib (.result driver plan result)) := by
      intro haux hsame
      have harchived : (w.step c lib (.result driver plan result)).archived = w.archived := by
        simp [World.step, lastArchived, haux]
      refine ⟨fun _ _ _ aux hinput hsome => ?_, fun digest hdigest => ?_⟩
      · cases hinput
        rw [haux] at hsome
        cases hsome
      · rw [harchived]
        exact h digest (hsame.symm.trans hdigest)
    cases hpayload : result.payload with
    | none =>
      refine hother ?_ (hsignature.trans (process_auxiliary_none c lib plan w.state hpayload))
      rw [auxiliaryOf, hpayload]
      rfl
    | some payload =>
      obtain ⟨hnew, hstores, hfails⟩ :=
        process_auxiliary c lib w.state (hp.order driver plan result hmem) hpayload
      rw [auxiliarySha256_eq hpayload] at hnew
      cases haux : auxiliaryOf lib result with
      | none =>
        refine hother haux (hsignature.trans (hnew.trans ?_))
        rw [haux]
        simp
      | some aux =>
        have hchanged : auxiliaryChanged lib w.state result (parsePayload lib result payload) =
            decide (w.state.archivedTripAuxiliarySha256 ≠
              some (lib.sha256 (digestInput aux))) := by
          rw [auxiliaryChanged, auxiliarySha256_eq hpayload, haux]
          rfl
        rw [haux] at hnew
        rw [← htrace] at hstores hfails
        have hresponse := h.response hp hmem haux hchanged (hsignature.trans hnew) hstores hfails
          fun hc => htimely payload hpayload hc
        refine ⟨fun _ _ _ aux' hinput hsome => ?_, hresponse.2⟩
        cases hinput
        rw [haux] at hsome
        cases hsome
        exact hresponse.1

/-- A run. -/
def World.run (c : CollectorConfig) (lib : Libraries) (w : World) (inputs : List Input) : World :=
  inputs.foldl (World.step c lib) w

/-- The condition, along a run. -/
def TimelyAlong (c : CollectorConfig) (lib : Libraries) : World → List Input → Prop
  | _, [] => True
  | w, input :: inputs => Timely c lib w.state input ∧ TimelyAlong c lib (w.step c lib input) inputs

theorem Signed.run {lib : Libraries} {all : List Input} (hp : Promises lib all) (c : CollectorConfig)
    {w : World} (h : Signed lib all w) {inputs : List Input} (hsub : inputs ⊆ all)
    (htimely : TimelyAlong c lib w inputs) :
    ∀ before input after, inputs = before ++ input :: after →
      Kept c lib (w.run c lib before) input := by
  induction inputs generalizing w with
  | nil =>
    intro before input after hsplit
    cases before <;> cases hsplit
  | cons first inputs ih =>
    obtain ⟨hkept, hsigned⟩ := h.step hp c (hsub List.mem_cons_self) htimely.1
    intro before input after hsplit
    cases before with
    | nil =>
      cases hsplit
      exact hkept
    | cons first' before =>
      cases hsplit
      exact ih hsigned (fun input hinput => hsub (List.mem_cons_of_mem _ hinput)) htimely.2 before
        input after rfl

/-- **The auxiliary state is kept**, in every run in which no response with a changed auxiliary state
is archived only behind a failed journal append. -/
theorem auxiliaryKept (c : CollectorConfig) (lib : Libraries) (runId streamId : String)
    (feeds : Feed → FeedHealth) (inputs : List Input) (hp : Promises lib inputs)
    (htimely : TimelyAlong c lib ⟨CollectorState.start c runId streamId feeds, none⟩ inputs) :
    ∀ before input after, inputs = before ++ input :: after →
      Kept c lib
        (World.run c lib ⟨CollectorState.start c runId streamId feeds, none⟩ before) input := by
  have hstart : Signed lib inputs ⟨CollectorState.start c runId streamId feeds, none⟩ :=
    fun digest hdigest => by cases hdigest
  exact hstart.run hp c (List.Subset.refl _) htimely

/-! ### A stop that comes and goes -/

/-- An entity `1` with an empty stop. -/
def stopBytes : Bytes := [0x0a, 0x01, 0x31, 0x3a, 0x00]

/-- A `FeedMessage` with this entity. -/
def stopMessage : Bytes := emptyMessage ++ [0x12, 0x05] ++ stopBytes

/-- The parsed entity. -/
def stopEntity : Entity where
  isDeleted := false
  payloads := ["stop"]
  timestamp := none
  serialized := stopBytes
  deterministic := stopBytes

/-- Libraries that agree with the real ones on the messages with and without the stop. -/
def stopLibraries : Libraries where
  parseFeed payload :=
    if payload = emptyMessage then .ok ⟨none, 0, []⟩
    else if payload = stopMessage then .ok ⟨none, 0, [stopEntity]⟩
    else .error ⟨.valueError, "Error parsing message"⟩
  parsers _ _ _ := .ok []
  sha256 bytes :=
    if bytes = [] then "e3b0c44298fc1c149afbf4c8996fb92427ae41e4649b934ca495991b7852b855"
    else if bytes = emptyMessage then
      "df9141d70fbacabfa2946fe481f2fded57cb4fd1fc352d97c620c819fe5dfa87"
    else if bytes = stopMessage then
      "65827ee506de78bb7517126d50d25776efec51f7548c0fe40261301662ca2dc4"
    else if bytes = digestInput [stopBytes] then
      "3c2799a342f1b6701bfc33edd5b0d8772e35130814d0ca589e4555466cb5c601"
    else ""
  json := plainJson
  redact := PyError.text
  utcDate _ := "2026-01-01"

theorem auxiliaryOf_stop {result : FetchResult} {aux : List Bytes}
    (h : auxiliaryOf stopLibraries result = some aux) : aux = [] ∨ aux = [stopBytes] := by
  obtain ⟨payload, message, hparse, rfl⟩ := message_of_auxiliaryOf h
  unfold stopLibraries at hparse
  simp only at hparse
  split_ifs at hparse
  · cases hparse
    exact Or.inl rfl
  · cases hparse
    exact Or.inr (by decide)

theorem promises_stop {inputs : List Input}
    (h : ∀ driver plan result, .result driver plan result ∈ inputs → Orderly plan) :
    Promises stopLibraries inputs where
  order := h
  size payload message hparse e he := by
    unfold stopLibraries at hparse
    simp only at hparse
    split_ifs at hparse
    · cases hparse
      cases he
    · cases hparse
      rw [List.mem_singleton.mp he]
      decide
  sha256 driver plan result aux driver' plan' result' aux' _ haux _ haux' hsha := by
    rcases auxiliaryOf_stop haux with rfl | rfl
    · rcases auxiliaryOf_stop haux' with rfl | rfl
      · rfl
      · exact absurd hsha (by decide +kernel)
    · rcases auxiliaryOf_stop haux' with rfl | rfl
      · exact absurd hsha (by decide +kernel)
      · rfl

/-- A response of the loop of `run`, within the raw interval of the first one. -/
def stopInput (pollId : String) (seconds : ℚ) (payload : Bytes) (plan : Plan) : Input :=
  .result .loop { plan with monotonic := fun _ => seconds } (sampleResult pollId seconds (some payload))

/-- The disk is full until the fallback behind the journal. -/
def fullDisk : Plan where
  freshId := "b"
  append attempt :=
    if attempt = .journalFallback then .ok () else .error ⟨.osError, "No space left on device"⟩
  journal := .error ⟨.osError, "No space left on device"⟩

/-- The stop comes while the disk is full, and goes. -/
def staleInputs : List Input :=
  [stopInput "p1" 0 emptyMessage { freshId := "a" }, stopInput "p2" 10 stopMessage fullDisk]

/-- The collector behind it. -/
def staleWorld : World :=
  World.run defaultConfig stopLibraries
    ⟨CollectorState.start defaultConfig "run" "s" fun _ => {}, none⟩ staleInputs

instance (path : RawPath) : DecidablePred (FailsRaw path)
  | .rawAppend _ _ _ (.error _) => isTrue trivial
  | .rawRepair p (.error _) => inferInstanceAs (Decidable (p = path))
  | .rawAppend _ _ _ (.ok _) | .rawRepair _ (.ok _) | .runMetadata .. | .presence .. | .stage ..
  | .health .. | .journal .. => isFalse id

/-- The poll without the stop. -/
def lastInput : Input := stopInput "p3" 20 emptyMessage { freshId := "c" }

theorem lastInput_stale :
    (∀ ev ∈ (handle defaultConfig stopLibraries staleWorld.state lastInput).2,
      ¬ FailsRaw ⟨.tripupdates, "2026-01-01"⟩ ev) ∧
    (staleWorld.step defaultConfig stopLibraries lastInput).archived = some [stopBytes] := by
  decide +kernel

theorem orderly_stop (inputs : List (String × ℚ × Bytes × Plan))
    (h : ∀ i ∈ inputs, i.2.2.2.iterate = fun _ paths => paths) :
    ∀ driver plan result,
      .result driver plan result ∈ inputs.map (fun i => stopInput i.1 i.2.1 i.2.2.1 i.2.2.2) →
      Orderly plan := by
  intro driver plan result hmem attempt paths path
  obtain ⟨i, hi, heq⟩ := List.mem_map.mp hmem
  cases heq
  rw [h i hi]

/-- **A stale signature**: the stop is archived behind a failed journal append, and the poll after it,
which is like the one before, is not archived. -/
theorem not_auxiliaryKept :
    ¬ ∀ (c : CollectorConfig) (lib : Libraries) (runId streamId : String)
      (feeds : Feed → FeedHealth) (inputs : List Input), Promises lib inputs →
      ∀ before input after, inputs = before ++ input :: after →
        Kept c lib
          (World.run c lib ⟨CollectorState.start c runId streamId feeds, none⟩ before) input := by
  intro h
  have hp : Promises stopLibraries (staleInputs ++ [lastInput]) :=
    promises_stop (orderly_stop [("p1", 0, emptyMessage, { freshId := "a" }),
      ("p2", 10, stopMessage, fullDisk), ("p3", 20, emptyMessage, { freshId := "c" })]
      (by simp [fullDisk]))
  obtain ⟨hfails, harchived⟩ := lastInput_stale
  have hkept : Kept defaultConfig stopLibraries staleWorld lastInput :=
    h defaultConfig stopLibraries "run" "s" (fun _ => {}) _ hp staleInputs lastInput [] rfl
  rcases hkept _ _ _ [] rfl (by decide +kernel) with ⟨ev, hev, hfail⟩ | ⟨last, hlast, hperm⟩
  · exact hfails ev hev hfail
  · rw [harchived, Option.some.injEq] at hlast
    subst hlast
    exact absurd hperm.length_eq (by decide)

/-- The stop comes while the disk is full, also behind the journal, and is archived at the next
poll. -/
def retriedInputs : List Input :=
  [stopInput "p1" 0 emptyMessage { freshId := "a" },
    stopInput "p2" 10 stopMessage
      { freshId := "b", append := fun _ => .error ⟨.osError, "No space left on device"⟩ },
    stopInput "p3" 20 stopMessage { freshId := "c" }]

theorem auxiliaryKept_retried :
    Kept defaultConfig stopLibraries
      (World.run defaultConfig stopLibraries
        ⟨CollectorState.start defaultConfig "run" "s" fun _ => {}, none⟩ (retriedInputs.take 2))
      (stopInput "p3" 20 stopMessage { freshId := "c" }) := by
  have hp : Promises stopLibraries retriedInputs :=
    promises_stop (orderly_stop [("p1", 0, emptyMessage, { freshId := "a" }),
      ("p2", 10, stopMessage,
        { freshId := "b", append := fun _ => .error ⟨.osError, "No space left on device"⟩ }),
      ("p3", 20, stopMessage, { freshId := "c" })] (by simp))
  refine auxiliaryKept defaultConfig stopLibraries "run" "s" (fun _ => {}) retriedInputs hp ?_
    (retriedInputs.take 2) _ [] rfl
  refine ⟨?_, ?_, ?_, trivial⟩
  all_goals
    intro payload hpayload _
    cases hpayload
    decide +kernel

end BkkCollector.Collector.AuxiliaryState
