import BkkCollector.Realtime.DedupExpiry

/-! # Filtering in two phases

The collector filters a poll without advancing the tracker, stages the rows, and commits them. That
comes to the same as filtering in one phase, and a poll that is not committed forgets nothing but
what is over anyway.

* `Alike`: two trackers in the same state. `Alike.call` is one call, `Alike.calls` a run.
* `twoPhases_eq_onePhase` has the results.
-/

namespace BkkCollector.Realtime.DedupPhases

open BkkCollector.Python.Objects BkkCollector.Realtime.Dedup BkkCollector.Realtime.DedupExpiry

/-! ### Two ways of filtering -/

/-- How a poll is filtered. -/
inductive Style where
  | onePhase
  | twoPhases
  deriving DecidableEq

/-- A call of `filter` with `update=True`, or with `update=False` and a `commit` of its result. -/
def filterIn (style : Style) (t : ChangeTracker) (rows : List Row) (date : String) (nowTs : ℚ) :
    ChangeTracker × Except PyError (List Row) :=
  match style with
  | .onePhase => t.filter rows date nowTs true
  | .twoPhases =>
    match t.filter rows date nowTs false with
    | (t, .ok out) => (t.commit out date nowTs, .ok out)
    | (t, .error e) => (t, .error e)

/-- The arguments of a call. -/
structure PollCall where
  rows : List Row
  date : String
  nowTs : ℚ

/-- The calls of a run, in these ways: the tracker at the end, and what the calls returned. -/
def filterAll : List (Style × PollCall) → ChangeTracker →
    ChangeTracker × List (Except PyError (List Row))
  | [], t => (t, [])
  | (style, c) :: calls, t =>
    let (t, out) := filterIn style t c.rows c.date c.nowTs
    let (t, outs) := filterAll calls t
    (t, out :: outs)

/-! ### Trackers in the same state -/

/-- **The same state**: the memory is a dictionary, whose order does not matter. -/
def Alike (t u : ChangeTracker) : Prop :=
  ∃ m : Memory, u = { t with last := m } ∧ ∀ k, m.lookup k = t.last.lookup k

variable {t u : ChangeTracker} {rows out : List Row} {date : String} {nowTs : ℚ}

theorem Alike.refl (t : ChangeTracker) : Alike t t := ⟨t.last, rfl, fun _ => rfl⟩

theorem Alike.maybeReset (h : Alike t u) (date : String) :
    Alike (t.maybeReset date) (u.maybeReset date) := by
  obtain ⟨m, rfl, hm⟩ := h
  unfold ChangeTracker.maybeReset
  dsimp only
  split
  · exact ⟨∅, rfl, fun _ => rfl⟩
  · exact ⟨m, rfl, hm⟩

theorem Alike.expire (h : Alike t u) (nowTs : ℚ) :
    Alike (t.expireHeartbeatEntries nowTs) (u.expireHeartbeatEntries nowTs) := by
  obtain ⟨m, rfl, hm⟩ := h
  unfold ChangeTracker.expireHeartbeatEntries
  dsimp only
  split
  · refine ⟨_, rfl, fun k => ?_⟩
    rw [lookup_sweep m fun e => decide (t.args.heartbeatSeconds ≤ nowTs - e.writtenAt),
      lookup_sweep t.last fun e => decide (t.args.heartbeatSeconds ≤ nowTs - e.writtenAt), hm]
  · exact ⟨m, rfl, hm⟩

theorem Alike.enter (h : Alike t u) (rows : List Row) (date : String) (nowTs : ℚ) :
    Alike (t.enter rows date nowTs) (u.enter rows date nowTs) := by
  obtain ⟨m, hu, hm⟩ := (h.maybeReset date).expire nowTs
  unfold ChangeTracker.enter
  rw [hu]
  exact ⟨m, rfl, hm⟩

theorem Alike.select (h : Alike t u) (rows : List Row) (prospective : Memory) :
    u.select nowTs rows prospective = t.select nowTs rows prospective := by
  obtain ⟨m, rfl, hm⟩ := h
  induction rows generalizing prospective with
  | nil => rfl
  | cons row rows ih => simp only [ChangeTracker.select, hm, ih]

theorem Alike.outcome (h : Alike t u) (rows : List Row) (nowTs : ℚ) :
    outcome u rows nowTs = outcome t rows nowTs := by
  have hselect : u.select nowTs rows ∅ = t.select nowTs rows ∅ := h.select rows ∅
  obtain ⟨m, rfl, -⟩ := h
  unfold DedupExpiry.outcome
  rw [hselect]
  rfl

/-! ### Writing the rows that went through -/

/-- The overlay of a poll holds what committing its rows writes. -/
theorem overlay_of_select {prospective overlay : Memory}
    (h : t.select nowTs rows prospective = .ok (out, overlay)) :
    overlay = out.foldl (fun d row => d.insert (t.args.keyOf row) (t.args.entryOf row nowTs))
      prospective := by
  induction rows generalizing out prospective with
  | nil =>
    cases h
    rfl
  | cons row rows ih =>
    simp only [ChangeTracker.select] at h
    obtain ⟨write, -, h⟩ := bind_eq_ok.mp h
    cases write with
    | false => exact ih h
    | true =>
      obtain ⟨⟨out', overlay'⟩, hrest, h⟩ := bind_eq_ok.mp h
      cases h
      have hoverlay := ih hrest
      rw [List.foldl_cons]
      exact hoverlay

/-- Writing rows to two memories that agree. -/
theorem lookup_foldl_insert_congr {m m' : Memory} (h : ∀ k, m.lookup k = m'.lookup k)
    (key : Row → Key) (entry : Row → Entry) (out : List Row) (k : Key) :
    (out.foldl (fun d row => d.insert (key row) (entry row)) m).lookup k =
      (out.foldl (fun d row => d.insert (key row) (entry row)) m').lookup k := by
  induction out generalizing m m' with
  | nil => exact h k
  | cons row out ih =>
    refine ih fun k' => ?_
    by_cases hk : k' = key row
    · rw [hk, AList.lookup_insert, AList.lookup_insert]
    · rw [AList.lookup_insert_ne hk, AList.lookup_insert_ne hk, h]

/-- Writing rows to an overlay, or to the memory under it. -/
theorem lookup_foldl_insert_union (overlay m : Memory) (key : Row → Key) (entry : Row → Entry)
    (out : List Row) (k : Key) :
    ((out.foldl (fun d row => d.insert (key row) (entry row)) overlay) ∪ m).lookup k =
      (out.foldl (fun d row => d.insert (key row) (entry row)) (overlay ∪ m)).lookup k := by
  induction out generalizing overlay with
  | nil => rfl
  | cons row out ih =>
    rw [List.foldl_cons, List.foldl_cons, ih]
    refine lookup_foldl_insert_congr (fun k' => ?_) key entry out k
    rw [lookup_union]
    by_cases hk : k' = key row
    · rw [hk, AList.lookup_insert, AList.lookup_insert]
      rfl
    · rw [AList.lookup_insert_ne hk, AList.lookup_insert_ne hk, lookup_union]

/-! ### One call -/

theorem day_enter (t : ChangeTracker) (rows : List Row) (date : String) (nowTs : ℚ) :
    (t.enter rows date nowTs).day = some date := by
  have hreset : (t.maybeReset date).day = some date := by
    unfold ChangeTracker.maybeReset
    split
    · rfl
    · next h => exact not_not.mp h
  unfold ChangeTracker.enter ChangeTracker.expireHeartbeatEntries
  dsimp only
  split <;> exact hreset

/-- **Committing what was selected** is updating at once. -/
theorem alike_twoPhases (t : ChangeTracker) (rows : List Row) (date : String) (nowTs : ℚ) :
    (filterIn .twoPhases t rows date nowTs).2 = (filterIn .onePhase t rows date nowTs).2 ∧
      Alike (filterIn .onePhase t rows date nowTs).1 (filterIn .twoPhases t rows date nowTs).1 := by
  unfold filterIn
  dsimp only
  rw [filter_eq, filter_eq, finish, finish]
  cases hout : outcome (t.enter rows date nowTs) rows nowTs with
  | error e => exact ⟨rfl, Alike.refl _⟩
  | ok r =>
    obtain ⟨out, overlay⟩ := r
    have hday : (t.enter rows date nowTs).maybeReset date = t.enter rows date nowTs :=
      if_neg (not_not.mpr (day_enter t rows date nowTs))
    refine ⟨rfl, ?_⟩
    simp only [ChangeTracker.commit, if_true, Bool.false_eq_true, if_false, hday]
    refine ⟨_, rfl, fun k => ?_⟩
    rw [overlay_of_select (select_of_outcome hout), lookup_foldl_insert_union]
    refine lookup_foldl_insert_congr (fun k' => ?_) _ _ out k
    rw [lookup_union, AList.lookup_empty]
    rfl

theorem Alike.trans {v : ChangeTracker} (h : Alike t u) (h' : Alike u v) : Alike t v := by
  obtain ⟨m, rfl, hm⟩ := h
  obtain ⟨m', rfl, hm'⟩ := h'
  exact ⟨m', rfl, fun k => (hm' k).trans (hm k)⟩

/-- Filtering in one phase does the same in the same state. -/
theorem Alike.filter (h : Alike t u) (rows : List Row) (date : String) (nowTs : ℚ) :
    (u.filter rows date nowTs true).2 = (t.filter rows date nowTs true).2 ∧
      Alike (t.filter rows date nowTs true).1 (u.filter rows date nowTs true).1 := by
  have henter := h.enter rows date nowTs
  rw [filter_eq, filter_eq, finish, finish, henter.outcome]
  obtain ⟨m, hu, hm⟩ := henter
  rw [hu]
  cases DedupExpiry.outcome (t.enter rows date nowTs) rows nowTs with
  | error e => exact ⟨rfl, m, rfl, hm⟩
  | ok r =>
    refine ⟨rfl, r.2 ∪ m, rfl, fun k => ?_⟩
    simp only [if_true, lookup_union, hm]

/-- **A call** of either style, in the same state. -/
theorem Alike.call (h : Alike t u) (style : Style) (rows : List Row) (date : String) (nowTs : ℚ) :
    (filterIn style u rows date nowTs).2 = (filterIn .onePhase t rows date nowTs).2 ∧
      Alike (filterIn .onePhase t rows date nowTs).1 (filterIn style u rows date nowTs).1 := by
  obtain ⟨hout, hstate⟩ := h.filter rows date nowTs
  cases style with
  | onePhase => exact ⟨hout, hstate⟩
  | twoPhases =>
    obtain ⟨hout', hstate'⟩ := alike_twoPhases u rows date nowTs
    exact ⟨hout'.trans hout, hstate.trans hstate'⟩

/-- **A run**, its calls in any styles. -/
theorem Alike.calls (h : Alike t u) (calls : List (Style × PollCall)) :
    (filterAll calls u).2 = (filterAll (calls.map fun c => (.onePhase, c.2)) t).2 ∧
      Alike (filterAll (calls.map fun c => (.onePhase, c.2)) t).1 (filterAll calls u).1 := by
  induction calls generalizing t u with
  | nil => exact ⟨rfl, h⟩
  | cons call calls ih =>
    obtain ⟨style, c⟩ := call
    obtain ⟨hout, hstate⟩ := h.call style c.rows c.date c.nowTs
    obtain ⟨houts, hend⟩ := ih hstate
    simp only [filterAll, List.map_cons]
    exact ⟨congrArg₂ _ hout houts, hend⟩

/-! ### A call that is not committed -/

/-- An entry of that day whose heartbeat is not over stays, and no entry comes. -/
theorem lookup_enter (t : ChangeTracker) (rows : List Row) (date : String) (nowTs : ℚ) (k : Key) :
    (∀ e, t.day = some date → t.last.lookup k = some e →
        nowTs - e.writtenAt < t.args.heartbeatSeconds →
        (t.enter rows date nowTs).last.lookup k = some e) ∧
      ∀ e, (t.enter rows date nowTs).last.lookup k = some e → t.last.lookup k = some e := by
  have hreset : (t.maybeReset date).args = t.args ∧
      (t.day = some date → (t.maybeReset date).last = t.last) ∧
      ∀ e, (t.maybeReset date).last.lookup k = some e → t.last.lookup k = some e := by
    unfold ChangeTracker.maybeReset
    split
    · next hday =>
      refine ⟨rfl, fun h => absurd h hday, fun e he => ?_⟩
      rw [AList.lookup_empty] at he
      cases he
    · exact ⟨rfl, fun _ => rfl, fun _ => id⟩
  obtain ⟨hargs, hlast, hsub⟩ := hreset
  unfold ChangeTracker.enter ChangeTracker.expireHeartbeatEntries
  dsimp only
  split
  · dsimp only
    rw [lookup_sweep (t.maybeReset date).last fun e =>
      decide ((t.maybeReset date).args.heartbeatSeconds ≤ nowTs - e.writtenAt)]
    constructor
    · intro e hday he hfresh
      rw [hlast hday, he, Option.filter_some, hargs, decide_eq_false (not_le.mpr hfresh)]
      rfl
    · intro e he
      exact hsub e (Option.filter_eq_some_iff.mp he).1
  · refine ⟨fun e hday he _ => ?_, hsub⟩
    rw [hlast hday]
    exact he

/-- **Two phases are one**: for every call, every call that is not committed, and every run. -/
theorem twoPhases_eq_onePhase (t : ChangeTracker) :
    (∀ rows date nowTs,
      (filterIn .twoPhases t rows date nowTs).2 = (filterIn .onePhase t rows date nowTs).2 ∧
        Alike (filterIn .onePhase t rows date nowTs).1
          (filterIn .twoPhases t rows date nowTs).1) ∧
    (∀ rows date nowTs k,
      (∀ e, t.day = some date → t.last.lookup k = some e →
        nowTs - e.writtenAt < t.args.heartbeatSeconds →
        (t.filter rows date nowTs false).1.last.lookup k = some e) ∧
      ∀ e, (t.filter rows date nowTs false).1.last.lookup k = some e →
        t.last.lookup k = some e) ∧
    ∀ calls : List (Style × PollCall),
      (filterAll calls t).2 = (filterAll (calls.map fun c => (.onePhase, c.2)) t).2 ∧
        Alike (filterAll (calls.map fun c => (.onePhase, c.2)) t).1 (filterAll calls t).1 := by
  refine ⟨alike_twoPhases t, fun rows date nowTs k => ?_, (Alike.refl t).calls⟩
  rw [DedupFlow.filter_fst]
  exact lookup_enter t rows date nowTs k

/-- The row of a trip with a delay. -/
def delayRow (delay : ℤ) : Row := [("id", .str "T1"), ("delay", .int delay)]

/-- The tracker of delays behind a first poll. -/
def committedTracker : ChangeTracker :=
  (filterIn .twoPhases delayTracker [delayRow 5] "2026-01-01" 0).1

/-- A poll ten seconds later that is not committed leaves the entry of the first one. -/
theorem twoPhases_eq_onePhase_delay :
    (committedTracker.filter [delayRow 60] "2026-01-01" 10 false).1.last.lookup
      (delayTracker.args.keyOf (delayRow 5)) = some (delayTracker.args.entryOf (delayRow 5) 0) :=
  ((twoPhases_eq_onePhase committedTracker).2.1 _ _ _ _).1 _ (by decide +kernel)
    (by decide +kernel) (by decide +kernel)

end BkkCollector.Realtime.DedupPhases
