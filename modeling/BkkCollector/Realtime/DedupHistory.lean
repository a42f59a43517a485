import BkkCollector.Realtime.DedupFlow

/-! # The row last written under a key

`DedupFlow` finds some durable row that stands for a suppressed one. Here it is the row last written
under the same key, on the same date: in an earlier poll, or earlier in the same poll.

* `decisions`: what the loop of `filter` decides about each row.
* `suppressed_repeats`: a suppressed row repeats the tracked fields of the row last written.
-/

namespace BkkCollector.Realtime.DedupHistory

open BkkCollector.Python.Objects BkkCollector.Config BkkCollector.Realtime.Dedup
open BkkCollector.Realtime.DedupFlow

variable {a : TrackerArguments} {t : ChangeTracker}

/-! ### Histories -/

/-- A row and when it was written. -/
abbrev Written := Row × ℚ

/-- The row last written under a key. -/
def lastUnder (a : TrackerArguments) (history : List Written) (key : Key) : Option Written :=
  history.reverse.find? fun w => a.keyOf w.1 = key

theorem lastUnder_append_self (history : List Written) (row : Row) (ts : ℚ) :
    lastUnder a (history ++ [(row, ts)]) (a.keyOf row) = some (row, ts) := by
  simp [lastUnder]

theorem lastUnder_append_ne (history : List Written) {row : Row} (ts : ℚ) {key : Key}
    (h : key ≠ a.keyOf row) : lastUnder a (history ++ [(row, ts)]) key = lastUnder a history key := by
  simp [lastUnder, h.symm]

theorem mem_of_lastUnder {history : List Written} {key : Key} {w : Written}
    (h : lastUnder a history key = some w) : w ∈ history ∧ a.keyOf w.1 = key :=
  ⟨List.mem_reverse.mp (List.mem_of_find?_eq_some h), by simpa using List.find?_some h⟩

/-- Every entry that `look` finds is that of the row last written under its key. -/
def Recalls (a : TrackerArguments) (look : Key → Option Entry) (history : List Written) : Prop :=
  ∀ k e, look k = some e → ∃ w, lastUnder a history k = some w ∧ e = a.entryOf w.1 w.2

/-- Writing a row and remembering it. -/
theorem Recalls.write {look : Key → Option Entry} {history : List Written}
    (h : Recalls a look history) (row : Row) (ts : ℚ) (look' : Key → Option Entry)
    (hsame : look' (a.keyOf row) = some (a.entryOf row ts))
    (hne : ∀ k, k ≠ a.keyOf row → look' k = look k) :
    Recalls a look' (history ++ [(row, ts)]) := by
  intro k e hk
  by_cases hkey : k = a.keyOf row
  · subst hkey
    rw [hsame, Option.some.injEq] at hk
    exact ⟨(row, ts), lastUnder_append_self history row ts, hk.symm⟩
  · rw [hne k hkey] at hk
    rw [lastUnder_append_ne history ts hkey]
    exact h k e hk

/-! ### Decisions -/

/-- The loop of `filter`, with the value of `write` for each row. -/
def decisions (t : ChangeTracker) (nowTs : ℚ) :
    List Row → Memory → Except PyError (List (Row × Bool))
  | [], _ => .ok []
  | row :: rows, prospective => do
    let key := t.args.keyOf row
    let prev := (prospective.lookup key).orElse fun _ => t.last.lookup key
    let write ← t.args.shouldWrite prev row nowTs
    let rest ← decisions t nowTs rows
      (if write then prospective.insert key (t.args.entryOf row nowTs) else prospective)
    pure ((row, write) :: rest)

/-- The rows let through. -/
def passed (ds : List (Row × Bool)) : List Row := (ds.filter fun d => d.2).map Prod.fst

/-- The rows let through, as they are written at `nowTs`. -/
def written (nowTs : ℚ) (ds : List (Row × Bool)) : List Written :=
  (passed ds).map fun row => (row, nowTs)

/-- `filter` lets through what its loop decided to. -/
theorem decisions_of_select {nowTs : ℚ} {rows out : List Row} {prospective overlay : Memory}
    (h : t.select nowTs rows prospective = .ok (out, overlay)) :
    ∃ ds, decisions t nowTs rows prospective = .ok ds ∧ ds.map Prod.fst = rows ∧
      passed ds = out := by
  induction rows generalizing prospective out with
  | nil =>
    cases h
    exact ⟨[], rfl, rfl, rfl⟩
  | cons row rows ih =>
    simp only [ChangeTracker.select, bind_eq_ok] at h
    obtain ⟨write, hwrite, h⟩ := h
    cases write with
    | true =>
      simp only [if_true, bind_eq_ok, pure_eq_ok] at h
      obtain ⟨⟨out', overlay'⟩, hselect, hout⟩ := h
      obtain ⟨rfl, rfl⟩ := Prod.mk.inj hout
      obtain ⟨ds, hds, hrows, hpassed⟩ := ih hselect
      refine ⟨(row, true) :: ds, ?_, by rw [List.map_cons, hrows], ?_⟩
      · simp only [decisions, bind_eq_ok, pure_eq_ok]
        exact ⟨true, hwrite, ds, hds, rfl⟩
      · rw [← hpassed]
        rfl
    | false =>
      simp only [Bool.false_eq_true, if_false] at h
      obtain ⟨ds, hds, hrows, hpassed⟩ := ih h
      refine ⟨(row, false) :: ds, ?_, by rw [List.map_cons, hrows], hpassed⟩
      simp only [decisions, bind_eq_ok, pure_eq_ok]
      exact ⟨false, hwrite, ds, hds, rfl⟩

/-- **A row that is passed over** repeats the row last written under its key. -/
theorem repeats_of_decisions {nowTs : ℚ} {rows : List Row} {prospective : Memory}
    {history : List Written} {before after : List (Row × Bool)} {row : Row}
    (h : decisions t nowTs rows prospective = .ok (before ++ (row, false) :: after))
    (hlook : Recalls t.args
      (fun k => (prospective.lookup k).orElse fun _ => t.last.lookup k) history) :
    ∃ w, lastUnder t.args (history ++ written nowTs before) (t.args.keyOf row) = some w ∧
      Near t.args row w.1 ∧ nowTs - w.2 < t.args.heartbeatSeconds := by
  induction rows generalizing prospective history before with
  | nil => cases before <;> cases h
  | cons r rows ih =>
    simp only [decisions, bind_eq_ok, pure_eq_ok] at h
    obtain ⟨write, hwrite, rest, hrest, hds⟩ := h
    cases before with
    | nil =>
      obtain ⟨hrow, rfl⟩ := List.cons.inj hds
      obtain ⟨rfl, rfl⟩ := Prod.mk.inj hrow
      cases hp : (prospective.lookup (t.args.keyOf r)).orElse fun _ =>
          t.last.lookup (t.args.keyOf r) with
      | none =>
        rw [hp] at hwrite
        cases hwrite
      | some e =>
        obtain ⟨w, hw, rfl⟩ := hlook _ e hp
        rw [hp] at hwrite
        refine ⟨w, by rw [show written nowTs [] = [] from rfl, List.append_nil]; exact hw, ?_⟩
        exact near_of_shouldWrite hwrite
    | cons d before =>
      obtain ⟨rfl, rfl⟩ := List.cons.inj hds
      cases write with
      | true =>
        -- the row goes through, and is the last one under its key for the rest of the loop
        rw [if_pos rfl] at hrest
        have hstep := Recalls.write hlook r nowTs
          (fun k => ((prospective.insert (t.args.keyOf r)
            (t.args.entryOf r nowTs)).lookup k).orElse fun _ => t.last.lookup k)
          (by simp) (fun k hk => by simp [AList.lookup_insert_ne hk])
        obtain ⟨w, hw⟩ := ih hrest hstep
        rw [List.append_assoc] at hw
        exact ⟨w, hw⟩
      | false =>
        rw [if_neg Bool.false_ne_true] at hrest
        obtain ⟨w, hw⟩ := ih hrest hlook
        exact ⟨w, hw⟩

/-! ### Runs -/

/-- The rows staged on a date, in order. -/
def stagedHistory (staged : List Staged) (date : String) : List Written :=
  (staged.filter fun s => s.date = date).map fun s => (s.row, s.stagedAt)

theorem stagedHistory_append (staged new : List Staged) (date : String) :
    stagedHistory (staged ++ new) date = stagedHistory staged date ++ stagedHistory new date := by
  simp [stagedHistory]

theorem stagedHistory_new (rows : List Row) (date : String) (ts : ℚ) :
    stagedHistory (rows.map fun row => ⟨date, ts, row⟩) date = rows.map fun row => (row, ts) := by
  simp only [stagedHistory, List.filter_map, List.map_map]
  rw [List.filter_eq_self.mpr (by simp)]
  rfl

/-- **The invariant**: the tracker's memory holds the rows last staged on its day. -/
def RemembersLast (w : Live) : Prop :=
  ∀ date, w.tracker.day = some date →
    Recalls w.tracker.args (fun k => w.tracker.last.lookup k) (stagedHistory w.staged date)

/-- Entering a poll, the tracker remembers the rows last staged on the poll's date. -/
theorem RemembersLast.enter {w : Live} (h : RemembersLast w) (rows : List Row) (date : String)
    (nowTs : ℚ) :
    Recalls w.tracker.args (fun k => (w.tracker.enter rows date nowTs).last.lookup k)
      (stagedHistory w.staged date) := by
  have hreset : Recalls w.tracker.args (fun k => (w.tracker.maybeReset date).last.lookup k)
      (stagedHistory w.staged date) := by
    unfold ChangeTracker.maybeReset
    split
    · intro k e hk
      simp at hk
    · next hday => exact h date (not_not.mp hday)
  have hexpire : Recalls w.tracker.args
      (fun k => ((w.tracker.maybeReset date).expireHeartbeatEntries nowTs).last.lookup k)
      (stagedHistory w.staged date) := by
    unfold ChangeTracker.expireHeartbeatEntries
    split
    · exact fun k e hk => hreset k e (lookup_foldl_erase hk)
    · exact hreset
  simpa [ChangeTracker.enter] using hexpire

theorem Recalls.foldl_insert {memory : Memory} {history : List Written}
    (h : Recalls a (fun k => memory.lookup k) history) (ts : ℚ) (rows : List Row) :
    Recalls a (fun k => (rows.foldl
        (fun d row => d.insert (a.keyOf row) (a.entryOf row ts)) memory).lookup k)
      (history ++ rows.map fun row => (row, ts)) := by
  induction rows generalizing memory history with
  | nil => simpa using h
  | cons row rows ih =>
    have hstep := Recalls.write h row ts
      (fun k => (memory.insert (a.keyOf row) (a.entryOf row ts)).lookup k)
      (by simp) (fun k hk => by simp [AList.lookup_insert_ne hk])
    simpa using ih hstep

/-- **One poll keeps the invariant.** -/
theorem RemembersLast.poll {w : Live} (h : RemembersLast w) (p : Poll) :
    RemembersLast (w.poll p) := by
  have hent := h.enter p.rows p.date p.nowTs
  rcases track_cases w p with ⟨e, hw⟩ | ⟨out, -, ⟨e, hw⟩ | ⟨path, hw⟩⟩
  · intro date hdate
    simp only [Live.poll, hw, Option.getD_some, enter_day, Option.some.injEq] at hdate
    subst hdate
    simpa [Live.poll, hw] using hent
  · intro date hdate
    simp only [Live.poll, hw, Option.getD_some, enter_day, Option.some.injEq] at hdate
    subst hdate
    simpa [Live.poll, hw] using hent
  · intro date hdate
    have hreset : (w.tracker.enter p.rows p.date p.nowTs).maybeReset p.date =
        w.tracker.enter p.rows p.date p.nowTs := if_neg (by simp)
    simp only [Live.poll, hw, Option.getD_some, ChangeTracker.commit, hreset, enter_day,
      Option.some.injEq] at hdate
    subst hdate
    have hcommit := hent.foldl_insert p.nowTs out
    rw [← stagedHistory_new out p.date p.nowTs, ← stagedHistory_append] at hcommit
    simpa [Live.poll, hw, ChangeTracker.commit, hreset] using hcommit

theorem remembersLast_foldl {w : Live} (h : RemembersLast w) (polls : List Poll) :
    RemembersLast (polls.foldl Live.poll w) := by
  induction polls generalizing w with
  | nil => exact h
  | cons p polls ih => exact ih (h.poll p)

/-- A new tracker has nothing to remember. -/
theorem remembersLast_start {c : CollectorConfig} {feed : Feed} {t : ChangeTracker}
    (h : makeTracker c feed = some t) : RemembersLast { tracker := t } := by
  intro date _ k e hk
  rw [(makeTracker_spec h).1] at hk
  simp at hk

/-! ### Suppressed rows -/

/-- The decisions a poll comes to. -/
def Live.decide (w : Live) (p : Poll) : Except PyError (List (Row × Bool)) :=
  decisions (w.tracker.enter p.rows p.date p.nowTs) p.nowTs p.rows ∅

/-- What was written on the date of a poll before one of its rows: by the polls before it, and by
its own rows before that one. -/
def writtenBefore (w : Live) (p : Poll) (before : List (Row × Bool)) : List Written :=
  stagedHistory w.staged p.date ++ written p.nowTs before

/-- The rows a successful poll emits are those it decided to write. -/
theorem emittedRows_eq {w : Live} {p : Poll} (hok : Tracked.succeeded (w.track p)) :
    ∃ ds, Live.decide w p = .ok ds ∧ ds.map Prod.fst = p.rows ∧
      passed ds = (w.track p).emittedRows := by
  rcases track_cases w p with ⟨e, hw⟩ | ⟨out, hf, ⟨e, hw⟩ | ⟨path, hw⟩⟩
  · rw [hw] at hok
    cases hok.1
  · rw [hw] at hok
    obtain ⟨-, path, hpath⟩ := hok
    cases hpath
  · obtain ⟨overlay, hs⟩ := select_of_filter hf
    rw [hw]
    exact decisions_of_select hs

/-- **A suppressed row** repeats the tracked fields of the row last written under its key, less than
a heartbeat ago. -/
theorem suppressed_repeats {w : Live} (h : RemembersLast w) {p : Poll}
    {before after : List (Row × Bool)} {row : Row}
    (hds : Live.decide w p = .ok (before ++ (row, false) :: after)) :
    ∃ v, lastUnder w.tracker.args (writtenBefore w p before) (w.tracker.args.keyOf row) = some v ∧
      Near w.tracker.args row v.1 ∧ p.nowTs - v.2 < w.tracker.args.heartbeatSeconds := by
  have hent := h.enter p.rows p.date p.nowTs
  have hrecalls : Recalls (w.tracker.enter p.rows p.date p.nowTs).args
      (fun k => ((∅ : Memory).lookup k).orElse fun _ =>
        (w.tracker.enter p.rows p.date p.nowTs).last.lookup k) (stagedHistory w.staged p.date) := by
    simpa using hent
  obtain ⟨v, hv⟩ := repeats_of_decisions hds hrecalls
  rw [enter_args] at hv
  exact ⟨v, hv⟩

end BkkCollector.Realtime.DedupHistory
