import BkkCollector.Realtime.Dedup

/-! # Suppressed rows stay within tolerance of durable data

A run of polls through the live flow, with the rows the spool made durable as its history. The
invariant `Remembers` says that every entry of the tracker's memory is a row staged on the
tracker's day; filtering compares a poll against nothing else.

* `select_covered`: every row of a filtered poll is near a row written before or in this poll.
* `suppressed_within_tolerance`: so after any run of polls.
-/

namespace BkkCollector.Realtime.DedupFlow

open BkkCollector.Python.Objects BkkCollector.Config BkkCollector.Realtime.Dedup

/-! ### Near rows -/

/-- Null in both, or equal, or numbers at most `tolerance` apart. -/
def Within (tolerance : ℚ) (v w : Value) : Prop :=
  (v = .null ∧ w = .null) ∨
    (v ≠ .null ∧ w ≠ .null ∧
      (v.key = w.key ∨ ∃ x y, v.number = some x ∧ w.number = some y ∧ |x - y| ≤ tolerance))

/-- Equal in every exact field, within tolerance in every tolerant one. -/
structure Near (a : TrackerArguments) (r s : Row) : Prop where
  exact : ∀ f ∈ a.valueFields, (r.get f).key = (s.get f).key
  numeric : ∀ f ∈ a.numericToleranceFields, Within (a.toleranceOf f) (r.get f) (s.get f)

theorem Within.refl (tolerance : ℚ) (v : Value) : Within tolerance v v := by
  by_cases h : v = .null
  · exact Or.inl ⟨h, h⟩
  · exact Or.inr ⟨h, h, Or.inl rfl⟩

theorem Near.refl (a : TrackerArguments) (r : Row) : Near a r r :=
  ⟨fun _ _ => rfl, fun _ _ => Within.refl _ _⟩

variable {a : TrackerArguments}

/-- An unchanged tolerant field is within tolerance. -/
theorem within_of_numericChanged {r s : Row} {fields : List String}
    (h : a.numericChanged fields (fields.map r.get) (fields.map s.get) = .ok false) :
    ∀ f ∈ fields, Within (a.toleranceOf f) (s.get f) (r.get f) := by
  induction fields with
  | nil => intro f hf; cases hf
  | cons field fields ih =>
    simp only [List.map_cons, TrackerArguments.numericChanged, Bool.and_eq_true, Bool.or_eq_true,
      isNone_iff] at h
    rw [List.forall_mem_cons]
    by_cases h1 : r.get field = .null ∧ s.get field = .null
    · rw [if_pos h1] at h
      exact ⟨Or.inl h1.symm, ih h⟩
    rw [if_neg h1] at h
    by_cases h2 : r.get field = .null ∨ s.get field = .null
    · rw [if_pos h2] at h
      cases h
    rw [if_neg h2] at h
    rw [not_or] at h2
    by_cases h3 : a.toleranceOf field ≤ 0
    · rw [if_pos h3] at h
      by_cases h4 : (s.get field).key = (r.get field).key
      · rw [if_neg (not_not.mpr h4)] at h
        exact ⟨Or.inr ⟨h2.2, h2.1, Or.inl h4⟩, ih h⟩
      · rw [if_pos h4] at h
        cases h
    · rw [if_neg h3] at h
      split at h
      · next n p hn hp =>
        by_cases h4 : a.toleranceOf field < |n - p|
        · rw [if_pos h4] at h
          cases h
        · rw [if_neg h4] at h
          exact ⟨Or.inr ⟨h2.2, h2.1, Or.inr ⟨n, p, hn, hp, not_lt.mp h4⟩⟩, ih h⟩
      · cases h

/-- **A suppressed row** is near the row behind its entry, written less than a heartbeat ago. -/
theorem near_of_shouldWrite {row r : Row} {nowTs ts : ℚ}
    (h : a.shouldWrite (some (a.entryOf r ts)) row nowTs = .ok false) :
    Near a row r ∧ nowTs - ts < a.heartbeatSeconds := by
  simp only [TrackerArguments.shouldWrite] at h
  by_cases h1 : (a.entryOf r ts).exact.map Value.key = (a.entryOf row nowTs).exact.map Value.key
  · rw [if_neg (not_not.mpr h1)] at h
    have hexact : ∀ f ∈ a.valueFields, (row.get f).key = (r.get f).key := by
      simpa [TrackerArguments.entryOf, eq_comm] using h1
    cases hn : a.numericChanged a.numericToleranceFields (a.entryOf r ts).numeric
        (a.entryOf row nowTs).numeric with
    | error e => simp [hn] at h
    | ok b =>
      cases b with
      | true => simp [hn] at h
      | false =>
        simp only [hn, Except.ok.injEq, decide_eq_false_iff_not, not_le] at h
        exact ⟨⟨hexact, within_of_numericChanged hn⟩, h⟩
  · rw [if_pos h1] at h
    cases h

/-! ### One poll -/

variable {t : ChangeTracker}

/-- `memory` is made of rows that satisfy `Known`, under their keys. -/
def Holds (a : TrackerArguments) (memory : Memory) (Known : Row → ℚ → Prop) : Prop :=
  ∀ k e, memory.lookup k = some e → ∃ r ts, Known r ts ∧ a.keyOf r = k ∧ e = a.entryOf r ts

theorem Holds.mono {memory : Memory} {P Q : Row → ℚ → Prop} (h : Holds a memory P)
    (hPQ : ∀ r ts, P r ts → Q r ts) : Holds a memory Q := fun k e hk => by
  obtain ⟨r, ts, hr, hkey, he⟩ := h k e hk
  exact ⟨r, ts, hPQ r ts hr, hkey, he⟩

theorem Holds.insert {memory : Memory} {P : Row → ℚ → Prop} (h : Holds a memory P) {row : Row}
    {ts : ℚ} (hrow : P row ts) :
    Holds a (AList.insert (a.keyOf row) (a.entryOf row ts) memory) P := fun k e hk => by
  by_cases hkk : k = a.keyOf row
  · subst hkk
    rw [AList.lookup_insert, Option.some.injEq] at hk
    exact ⟨row, ts, hrow, rfl, hk.symm⟩
  · rw [AList.lookup_insert_ne hkk] at hk
    exact h k e hk

/-- A row that stands for `row` at `nowTs`: same key, near, and not a heartbeat old. -/
def Stands (a : TrackerArguments) (row : Row) (nowTs : ℚ) (r : Row) (ts : ℚ) : Prop :=
  a.keyOf r = a.keyOf row ∧ Near a row r ∧ nowTs - ts < a.heartbeatSeconds

/-- **The loop of `filter`**: for every row of the poll there is one that stands for it, known
before or let through now. -/
theorem select_covered (hpos : 0 < t.args.heartbeatSeconds) {nowTs : ℚ} {rows out : List Row}
    {prospective overlay : Memory} {Known : Row → ℚ → Prop}
    (h : t.select nowTs rows prospective = .ok (out, overlay)) (hlast : Holds t.args t.last Known)
    (hover : Holds t.args prospective Known) :
    ∀ row ∈ rows, ∃ r ts, (Known r ts ∨ (r ∈ out ∧ ts = nowTs)) ∧
      Stands t.args row nowTs r ts := by
  induction rows generalizing prospective out Known with
  | nil => intro row hrow; cases hrow
  | cons row rows ih =>
    simp only [ChangeTracker.select] at h
    set prev := (prospective.lookup (t.args.keyOf row)).orElse fun _ =>
      t.last.lookup (t.args.keyOf row) with hprev
    have hknown : ∀ e, prev = some e →
        ∃ r ts, Known r ts ∧ t.args.keyOf r = t.args.keyOf row ∧ e = t.args.entryOf r ts := by
      intro e he
      cases hp : prospective.lookup (t.args.keyOf row) with
      | none =>
        rw [hprev, hp] at he
        exact hlast _ e he
      | some e' =>
        rw [hprev, hp] at he
        exact hover _ e (hp.trans he)
    cases hw : t.args.shouldWrite prev row nowTs with
    | error e => simp [hw, bind, Except.bind] at h
    | ok write =>
      cases write with
      | true =>
        -- the row is let through: it stands for itself, and is known to the rest of the loop
        cases hs : t.select nowTs rows
            (prospective.insert (t.args.keyOf row) (t.args.entryOf row nowTs)) with
        | error e => simp [hw, hs, bind, Except.bind] at h
        | ok r =>
          simp only [hw, hs, bind, Except.bind, pure, Except.pure, if_true, Except.ok.injEq,
            Prod.mk.injEq] at h
          obtain ⟨rfl, rfl⟩ := h
          set Known' : Row → ℚ → Prop := fun r ts => Known r ts ∨ (r = row ∧ ts = nowTs)
          have hrest := ih hs (hlast.mono fun r ts h => (Or.inl h : Known' r ts))
            (Holds.insert (hover.mono fun r ts h => (Or.inl h : Known' r ts)) (Or.inr ⟨rfl, rfl⟩))
          rw [List.forall_mem_cons]
          refine ⟨⟨row, nowTs, Or.inr ⟨List.mem_cons_self, rfl⟩, rfl, Near.refl _ _, by
            rwa [sub_self]⟩, fun row' hrow' => ?_⟩
          obtain ⟨r', ts, hr', hst⟩ := hrest row' hrow'
          refine ⟨r', ts, ?_, hst⟩
          rcases hr' with (hr' | ⟨rfl, rfl⟩) | ⟨hr', rfl⟩
          · exact Or.inl hr'
          · exact Or.inr ⟨List.mem_cons_self, rfl⟩
          · exact Or.inr ⟨List.mem_cons_of_mem _ hr', rfl⟩
      | false =>
        simp only [hw, bind, Except.bind, Bool.false_eq_true, if_false] at h
        rw [List.forall_mem_cons]
        refine ⟨?_, ih h hlast hover⟩
        cases hp : prev with
        | none => simp [hp, TrackerArguments.shouldWrite] at hw
        | some e =>
          obtain ⟨r, ts, hr, hkey, rfl⟩ := hknown e hp
          rw [hp] at hw
          exact ⟨r, ts, Or.inl hr, hkey, near_of_shouldWrite hw⟩

/-! ### The tracker's memory -/

theorem lookup_foldl_erase {memory : Memory} {ks : List Key} {k : Key} {e : Entry}
    (h : (ks.foldl (fun d k => d.erase k) memory).lookup k = some e) :
    memory.lookup k = some e := by
  induction ks generalizing memory with
  | nil => exact h
  | cons k' ks ih =>
    have h' := ih h
    by_cases hk : k = k'
    · rw [hk, AList.lookup_erase] at h'
      cases h'
    · rwa [AList.lookup_erase_ne hk] at h'

@[simp] theorem maybeReset_args (date : String) : (t.maybeReset date).args = t.args := by
  unfold ChangeTracker.maybeReset
  split <;> rfl

@[simp] theorem maybeReset_day (date : String) : (t.maybeReset date).day = some date := by
  unfold ChangeTracker.maybeReset
  split
  · rfl
  · next h => exact not_not.mp h

@[simp] theorem expireHeartbeatEntries_args (nowTs : ℚ) :
    (t.expireHeartbeatEntries nowTs).args = t.args := by
  unfold ChangeTracker.expireHeartbeatEntries
  split <;> rfl

@[simp] theorem expireHeartbeatEntries_day (nowTs : ℚ) :
    (t.expireHeartbeatEntries nowTs).day = t.day := by
  unfold ChangeTracker.expireHeartbeatEntries
  split <;> rfl

/-- Forgetting entries keeps what the others stand on. -/
theorem Holds.expire {P : Row → ℚ → Prop} (h : Holds t.args t.last P) (nowTs : ℚ) :
    Holds t.args (t.expireHeartbeatEntries nowTs).last P := by
  unfold ChangeTracker.expireHeartbeatEntries
  split
  · exact fun k e hk => h k e (lookup_foldl_erase hk)
  · exact h

theorem Holds.foldl_insert {memory : Memory} {P : Row → ℚ → Prop} {ts : ℚ} {rows : List Row}
    (h : Holds a memory P) (hrows : ∀ row ∈ rows, P row ts) :
    Holds a (rows.foldl (fun d row => d.insert (a.keyOf row) (a.entryOf row ts)) memory) P := by
  induction rows generalizing memory with
  | nil => exact h
  | cons row rows ih =>
    obtain ⟨hrow, hrows⟩ := List.forall_mem_cons.mp hrows
    exact ih (h.insert hrow) hrows

/-! ### Runs -/

/-- A row the spool made durable. -/
structure Staged where
  date : String
  stagedAt : ℚ
  row : Row
  deriving DecidableEq

/-- A parsed poll of a tracked feed, and what the spool does with its rows. -/
structure Poll where
  rows : List Row
  date : String
  nowTs : ℚ
  spool : Except PyError (Option String)

/-- The tracker of a feed and the rows this process staged. -/
structure Live where
  tracker : ChangeTracker
  staged : List Staged := []

/-- What the live flow makes of a poll. -/
def Live.track (w : Live) (p : Poll) : Tracked :=
  trackAndStage (m := Id) (some w.tracker) p.rows p.date p.nowTs fun _ => p.spool

/-- Filter and stage both succeeded. -/
def Tracked.succeeded (r : Tracked) : Prop := r.changeTracking = .ok () ∧ ∃ path, r.spool = .ok path

/-- A poll through the live flow. -/
def Live.poll (w : Live) (p : Poll) : Live where
  tracker := (w.track p).tracker.getD w.tracker
  staged := w.staged ++
    match (w.track p).changeTracking, (w.track p).spool with
    | .ok _, .ok _ => (w.track p).emittedRows.map fun row => ⟨p.date, p.nowTs, row⟩
    | _, _ => []

/-- What is staged on `date`. -/
def StagedOn (staged : List Staged) (date : String) (r : Row) (ts : ℚ) : Prop :=
  ∃ s ∈ staged, s.date = date ∧ s.row = r ∧ s.stagedAt = ts

/-- **The invariant**: the tracker's memory holds rows staged on its day. -/
def Remembers (w : Live) : Prop :=
  Holds w.tracker.args w.tracker.last fun r ts =>
    ∃ date, w.tracker.day = some date ∧ StagedOn w.staged date r ts

@[simp] theorem enter_args (rows : List Row) (date : String) (nowTs : ℚ) :
    (t.enter rows date nowTs).args = t.args := by simp [ChangeTracker.enter]

@[simp] theorem enter_day (rows : List Row) (date : String) (nowTs : ℚ) :
    (t.enter rows date nowTs).day = some date := by simp [ChangeTracker.enter]

/-- Entering a poll, the tracker remembers rows staged on the poll's date. -/
theorem Remembers.enter {w : Live} (h : Remembers w) (rows : List Row) (date : String)
    (nowTs : ℚ) :
    Holds w.tracker.args (w.tracker.enter rows date nowTs).last (StagedOn w.staged date) := by
  have hreset : Holds w.tracker.args (w.tracker.maybeReset date).last (StagedOn w.staged date) := by
    unfold ChangeTracker.maybeReset
    split
    · intro k e hk
      simp at hk
    · next hday =>
      rw [not_not] at hday
      refine h.mono fun r ts ⟨date', hdate', hr⟩ => ?_
      rw [hday, Option.some.injEq] at hdate'
      rwa [hdate']
  have hexpire := Holds.expire (t := w.tracker.maybeReset date) (by simpa using hreset) nowTs
  simpa [ChangeTracker.enter] using hexpire

theorem filter_fst (rows : List Row) (date : String) (nowTs : ℚ) :
    (t.filter rows date nowTs false).1 = t.enter rows date nowTs := by
  simp only [ChangeTracker.filter, Bool.false_eq_true, if_false]
  split
  · rfl
  · split <;> rfl

theorem select_of_filter {rows out : List Row} {date : String} {nowTs : ℚ}
    (h : (t.filter rows date nowTs false).2 = .ok out) :
    ∃ overlay, (t.enter rows date nowTs).select nowTs rows ∅ = .ok (out, overlay) := by
  simp only [ChangeTracker.filter, Bool.false_eq_true, if_false] at h
  split at h
  · cases h
  · split at h
    · cases h
    · next overlay hs =>
      cases h
      exact ⟨overlay, hs⟩

/-- The outcomes of a poll: filtering raised, staging failed, or the rows let through are durable
and committed. -/
theorem track_cases (w : Live) (p : Poll) :
    (∃ e, w.track p =
      { tracker := some (w.tracker.enter p.rows p.date p.nowTs), changeTracking := .error e }) ∨
    ∃ out, (w.tracker.filter p.rows p.date p.nowTs false).2 = .ok out ∧
      ((∃ e, w.track p =
        { tracker := some (w.tracker.enter p.rows p.date p.nowTs), emittedRows := out
          spool := .error e }) ∨
      ∃ path, w.track p =
        { tracker := some ((w.tracker.enter p.rows p.date p.nowTs).commit out p.date p.nowTs)
          emittedRows := out, spool := .ok path }) := by
  simp only [Live.track, trackAndStage, filter_fst]
  cases hf : (w.tracker.filter p.rows p.date p.nowTs false).2 with
  | error e => exact Or.inl ⟨e, rfl⟩
  | ok out =>
    refine Or.inr ⟨out, rfl, ?_⟩
    cases hs : p.spool with
    | error e => exact Or.inl ⟨e, rfl⟩
    | ok path => exact Or.inr ⟨path, rfl⟩

theorem poll_args (w : Live) (p : Poll) : (w.poll p).tracker.args = w.tracker.args := by
  rcases track_cases w p with ⟨e, h⟩ | ⟨out, -, ⟨e, h⟩ | ⟨path, h⟩⟩ <;>
    simp [Live.poll, h, ChangeTracker.commit]

theorem StagedOn.append {staged new : List Staged} {date : String} {r : Row} {ts : ℚ}
    (h : StagedOn staged date r ts) : StagedOn (staged ++ new) date r ts := by
  obtain ⟨s, hs, h⟩ := h
  exact ⟨s, List.mem_append_left _ hs, h⟩

/-- **One poll keeps the invariant.** -/
theorem Remembers.poll {w : Live} (h : Remembers w) (p : Poll) : Remembers (w.poll p) := by
  have hent := h.enter p.rows p.date p.nowTs
  rcases track_cases w p with ⟨e, hw⟩ | ⟨out, -, ⟨e, hw⟩ | ⟨path, hw⟩⟩
  · simpa [Remembers, Live.poll, hw] using hent
  · simpa [Remembers, Live.poll, hw] using hent
  · set new : List Staged := out.map fun row => ⟨p.date, p.nowTs, row⟩
    have hnew : ∀ row ∈ out, StagedOn (w.staged ++ new) p.date row p.nowTs := fun row hrow =>
      ⟨⟨p.date, p.nowTs, row⟩, by simp [new, hrow], rfl, rfl, rfl⟩
    have hcommit := Holds.foldl_insert (hent.mono fun r ts hr => hr.append) hnew
    have hreset : (w.tracker.enter p.rows p.date p.nowTs).maybeReset p.date =
        w.tracker.enter p.rows p.date p.nowTs := if_neg (by simp)
    simpa [Remembers, Live.poll, hw, ChangeTracker.commit, hreset] using hcommit

theorem remembers_foldl {w : Live} (h : Remembers w) (polls : List Poll) :
    Remembers (polls.foldl Live.poll w) := by
  induction polls generalizing w with
  | nil => exact h
  | cons p polls ih => exact ih (h.poll p)

theorem foldl_args (w : Live) (polls : List Poll) :
    (polls.foldl Live.poll w).tracker.args = w.tracker.args := by
  induction polls generalizing w with
  | nil => rfl
  | cons p polls ih => rw [List.foldl_cons, ih, poll_args]

/-- **A successful poll is covered**: every parsed row has a staged row that stands for it. -/
theorem Remembers.covered {w : Live} (h : Remembers w)
    (hpos : 0 < w.tracker.args.heartbeatSeconds) {p : Poll} (hok : Tracked.succeeded (w.track p)) :
    ∀ row ∈ p.rows, ∃ s ∈ (w.poll p).staged, s.date = p.date ∧
      Stands w.tracker.args row p.nowTs s.row s.stagedAt := by
  have hent := h.enter p.rows p.date p.nowTs
  rcases track_cases w p with ⟨e, hw⟩ | ⟨out, hf, ⟨e, hw⟩ | ⟨path, hw⟩⟩
  · rw [hw] at hok
    cases hok.1
  · rw [hw] at hok
    obtain ⟨-, path, hpath⟩ := hok
    cases hpath
  · obtain ⟨overlay, hs⟩ := select_of_filter hf
    intro row hrow
    obtain ⟨r, ts, hr, hst⟩ := select_covered (by simpa using hpos) hs (by simpa using hent)
      (fun k e hk => by simp at hk) row hrow
    rw [enter_args] at hst
    rcases hr with ⟨s, hmem, hdate, rfl, rfl⟩ | ⟨hr, rfl⟩
    · exact ⟨s, by simp [Live.poll, hmem], hdate, hst⟩
    · exact ⟨⟨p.date, p.nowTs, r⟩, by simp [Live.poll, hw, hr], rfl, hst⟩

/-! ### The collector's runs -/

/-- **Suppressed rows stay within tolerance of durable data.** After any polls of a tracked feed, a
poll whose filter and stage both succeeded leaves, for every parsed row, a row with the same key
that was durably staged on the poll's date, equal in all exact fields, within the configured
tolerance in all tolerant ones, and less than a heartbeat before the poll. -/
theorem suppressed_within_tolerance (c : CollectorConfig) (feed : Feed) (t : ChangeTracker)
    (ht : makeTracker c feed = some t) (polls : List Poll) (p : Poll)
    (hok : Tracked.succeeded ((polls.foldl Live.poll { tracker := t }).track p)) :
    ∀ row ∈ p.rows, ∃ s ∈ ((polls.foldl Live.poll { tracker := t }).poll p).staged,
      s.date = p.date ∧ t.args.keyOf s.row = t.args.keyOf row ∧ Near t.args row s.row ∧
        p.nowTs - s.stagedAt < c.heartbeatSeconds := by
  obtain ⟨hlast, hheartbeat⟩ := makeTracker_spec ht
  have hinit : Remembers { tracker := t } := by
    intro k e hk
    rw [hlast] at hk
    simp at hk
  have hargs := foldl_args { tracker := t } polls
  have hpos : 0 < t.args.heartbeatSeconds := by
    rw [hheartbeat]
    exact c.heartbeat_pos
  have h := (remembers_foldl hinit polls).covered (by rwa [hargs]) hok
  rw [hargs] at h
  simpa only [Stands, hheartbeat] using h

/-- The default settings. -/
def defaultConfig : CollectorConfig where
  valid := by decide +kernel

/-- A trip whose delay moves by two seconds between two polls: the second row is suppressed, and
the first one stands for it. -/
theorem suppressed_within_tolerance_jitter :
    let t := (makeTracker defaultConfig .tripupdates).get rfl
    let row (delay : ℤ) : Row := [("trip_id", .str "T1"), ("trip_delay", .int delay)]
    let first : Poll := ⟨[row 30], "2026-01-01", 1000, .ok (some "batch-1")⟩
    let second : Poll := ⟨[row 32], "2026-01-01", 1010, .ok none⟩
    ((Live.poll { tracker := t } first).track second).emittedRows = [] ∧
      ∀ r ∈ second.rows, ∃ s ∈ ((Live.poll { tracker := t } first).poll second).staged,
        s.date = second.date ∧ t.args.keyOf s.row = t.args.keyOf r ∧ Near t.args r s.row ∧
          second.nowTs - s.stagedAt < defaultConfig.heartbeatSeconds := by
  intro t row first second
  refine ⟨by decide +kernel, ?_⟩
  exact suppressed_within_tolerance defaultConfig .tripupdates t rfl [first] second
    ⟨by decide +kernel, none, by decide +kernel⟩

end BkkCollector.Realtime.DedupFlow
