import Mathlib.Tactic.NormNum
import Mathlib.Tactic.Ring
import BkkCollector.Realtime.DedupFlow
import BkkCollector.Realtime.GtfsRtParse

/-! # Forgetting entries is invisible

A tracker forgets an entry once its heartbeat is over: the next row of that key goes through
whatever its values are, so it goes through for an unknown key too. The sweep is throttled, by at
most a minute, and that is how long an entry can outlive its heartbeat.

* `filterKeeping`: `filter` without the sweep, the tracker to compare with.
* `Agree`: two trackers that differ in entries whose heartbeat is over. `Agree.call` is one call,
  `Agree.calls` a run.
* `Swept`: what the throttled sweep leaves; `Swept.bounded`: what follows for the memory.
* `expiry_invisible` has both results, for rows whose values under a tolerance are numbers, as those
  of the parsers are (`numeric_of_parsed`).
-/

namespace BkkCollector.Realtime.DedupExpiry

open BkkCollector.Python.Objects BkkCollector.Config BkkCollector.Realtime.Dedup
open BkkCollector.Realtime.DedupFlow BkkCollector.Realtime.TripUpdatePolicy
open BkkCollector.Realtime.GtfsRealtime BkkCollector.Realtime.GtfsRtParse

/-! ### A tracker that never forgets within a day -/

/-- What `filter` decides after its reset and its sweep: the rows let through with their overlay, or
the exception. -/
def outcome (t : ChangeTracker) (rows : List Row) (nowTs : ℚ) :
    Except PyError (List Row × Memory) :=
  if rows ≠ [] ∧ ¬ t.hasSignal rows ∧ t.args.nullGuardMinRows ≤ t.consecutiveAllNullRows then
    .error ⟨.changeTrackerSignalError, t.signalMessage⟩
  else t.select nowTs rows ∅

/-- `filter` after its reset and its sweep. -/
def finish (t : ChangeTracker) (rows : List Row) (nowTs : ℚ) (update : Bool) :
    ChangeTracker × Except PyError (List Row) :=
  match outcome t rows nowTs with
  | .error e => (t, .error e)
  | .ok (out, overlay) => (if update then { t with last := overlay ∪ t.last } else t, .ok out)

/-- How `filter` starts with a sweep that does nothing. -/
def enterKeeping (t : ChangeTracker) (rows : List Row) (date : String) : ChangeTracker :=
  let t := t.maybeReset date
  { t with consecutiveAllNullRows := t.nullRows rows }

/-- `filter` of a tracker that never expires entries within a day. -/
def filterKeeping (t : ChangeTracker) (rows : List Row) (date : String) (nowTs : ℚ)
    (update : Bool) : ChangeTracker × Except PyError (List Row) :=
  finish (enterKeeping t rows date) rows nowTs update

theorem filter_eq (t : ChangeTracker) (rows : List Row) (date : String) (nowTs : ℚ)
    (update : Bool) :
    t.filter rows date nowTs update = finish (t.enter rows date nowTs) rows nowTs update := by
  simp only [ChangeTracker.filter, finish, outcome]
  split_ifs <;> rfl

theorem select_of_outcome {t : ChangeTracker} {rows out : List Row} {nowTs : ℚ} {overlay : Memory}
    (h : outcome t rows nowTs = .ok (out, overlay)) :
    t.select nowTs rows ∅ = .ok (out, overlay) := by
  unfold outcome at h
  split_ifs at h
  exact h

/-! ### Runs -/

/-- A call of `filter`, and whether its result is committed. -/
structure Call where
  rows : List Row
  date : String
  nowTs : ℚ
  update : Bool
  commits : Bool

/-- A way of filtering. -/
abbrev Filter := ChangeTracker → List Row → String → ℚ → Bool →
  ChangeTracker × Except PyError (List Row)

/-- A key and when it was written. -/
abbrev Write := Key × ℚ

/-- A tracker, what its calls came to, and the keys they wrote. -/
structure Session where
  tracker : ChangeTracker
  outcomes : List (Except PyError (List Row)) := []
  writes : List Write := []

/-- The keys of rows written at a time. -/
def writesOf (a : TrackerArguments) (nowTs : ℚ) (rows : List Row) : List Write :=
  rows.map fun row => (a.keyOf row, nowTs)

/-- The call of `filter`. -/
def Session.filtered (filter : Filter) (s : Session) (c : Call) : Session :=
  let r := filter s.tracker c.rows c.date c.nowTs c.update
  { tracker := r.1
    outcomes := s.outcomes ++ [r.2]
    writes := s.writes ++
      match r.2 with
      | .ok out => if c.update then writesOf s.tracker.args c.nowTs out else []
      | .error _ => [] }

/-- A call, and the commit of its result. -/
def Session.call (filter : Filter) (s : Session) (c : Call) : Session :=
  let f := s.filtered filter c
  match (filter s.tracker c.rows c.date c.nowTs c.update).2 with
  | .ok out =>
    if c.commits then
      { f with
        tracker := f.tracker.commit out c.date c.nowTs
        writes := f.writes ++ writesOf s.tracker.args c.nowTs out }
    else f
  | .error _ => f

/-- The calls of a run. -/
def Session.run (filter : Filter) (t : ChangeTracker) (calls : List Call) : Session :=
  calls.foldl (Session.call filter) { tracker := t }

/-! ### Decisions that do not raise -/

variable {a : TrackerArguments}

/-- A row whose values under a tolerance are numbers, or `None`. -/
def Numeric (a : TrackerArguments) (row : Row) : Prop :=
  ∀ f ∈ a.numericToleranceFields, 0 < a.toleranceOf f →
    (row.get f).isNone = true ∨ (row.get f).number.isSome = true

instance (a : TrackerArguments) (row : Row) : Decidable (Numeric a row) := by
  unfold Numeric; infer_instance

theorem numericChanged_ok {r s : Row} {fields : List String}
    (hr : ∀ f ∈ fields, 0 < a.toleranceOf f →
      (r.get f).isNone = true ∨ (r.get f).number.isSome = true)
    (hs : ∀ f ∈ fields, 0 < a.toleranceOf f →
      (s.get f).isNone = true ∨ (s.get f).number.isSome = true) :
    ∃ b, a.numericChanged fields (fields.map r.get) (fields.map s.get) = .ok b := by
  induction fields with
  | nil => exact ⟨false, rfl⟩
  | cons field fields ih =>
    obtain ⟨hr1, hr⟩ := List.forall_mem_cons.mp hr
    obtain ⟨hs1, hs⟩ := List.forall_mem_cons.mp hs
    obtain ⟨b, hb⟩ := ih hr hs
    simp only [List.map_cons, TrackerArguments.numericChanged, Bool.and_eq_true, Bool.or_eq_true]
    by_cases h1 : (r.get field).isNone = true ∧ (s.get field).isNone = true
    · exact ⟨b, by rw [if_pos h1, hb]⟩
    rw [if_neg h1]
    by_cases h2 : (r.get field).isNone = true ∨ (s.get field).isNone = true
    · exact ⟨true, if_pos h2⟩
    rw [if_neg h2]
    by_cases h3 : a.toleranceOf field ≤ 0
    · rw [if_pos h3]
      split_ifs
      · exact ⟨true, rfl⟩
      · exact ⟨b, hb⟩
    · rw [if_neg h3]
      -- both are numbers, so the difference does not raise
      rw [not_or] at h2
      obtain ⟨p, hp⟩ := Option.isSome_iff_exists.mp
        ((hr1 (not_le.mp h3)).resolve_left h2.1)
      obtain ⟨n, hn⟩ := Option.isSome_iff_exists.mp
        ((hs1 (not_le.mp h3)).resolve_left h2.2)
      simp only [hn, hp]
      split_ifs
      · exact ⟨true, rfl⟩
      · exact ⟨b, hb⟩

/-- Over the heartbeat a row is written, whatever has changed. -/
theorem over_of_changed {x : Except PyError Bool} {b : Bool} {expired : Prop}
    [Decidable expired] (hover : expired) :
    x = .ok b → (match x with
      | .error err => .error err
      | .ok true => .ok true
      | .ok false => .ok (decide expired)) = (Except.ok true : Except PyError Bool) := by
  rintro rfl
  cases b with
  | true => rfl
  | false => exact congrArg Except.ok (decide_eq_true hover)

/-- **An entry whose heartbeat is over** lets the next row of its key through. -/
theorem shouldWrite_over {r row : Row} {ts nowTs : ℚ} (hr : Numeric a r) (hrow : Numeric a row)
    (hover : a.heartbeatSeconds ≤ nowTs - ts) :
    a.shouldWrite (some (a.entryOf r ts)) row nowTs = .ok true := by
  obtain ⟨b, hb⟩ := numericChanged_ok hr hrow
  simp only [TrackerArguments.shouldWrite]
  split_ifs
  · rfl
  · exact over_of_changed hover hb

/-! ### Memories -/

theorem lookup_union (m m' : Memory) (k : Key) :
    (m ∪ m').lookup k = (m.lookup k).orElse fun _ => m'.lookup k := by
  by_cases hk : k ∈ m
  · obtain ⟨e, he⟩ := Option.isSome_iff_exists.mp (AList.lookup_isSome.mpr hk)
    rw [AList.lookup_union_left hk, he]
    rfl
  · rw [AList.lookup_union_right hk, AList.lookup_eq_none.mpr hk]
    rfl

theorem Holds.union {m m' : Memory} {P : Row → ℚ → Prop} (h : Holds a m P) (h' : Holds a m' P) :
    Holds a (m ∪ m') P := by
  intro k e hk
  rw [lookup_union] at hk
  cases hm : m.lookup k with
  | none =>
    rw [hm] at hk
    exact h' k e hk
  | some e' =>
    rw [hm] at hk
    exact h k e (hm.trans hk)

theorem holds_empty (P : Row → ℚ → Prop) : Holds a ∅ P := fun k e hk => by
  rw [AList.lookup_empty] at hk
  cases hk

theorem lookup_foldl_erase_eq (memory : Memory) (ks : List Key) (k : Key) :
    (ks.foldl (fun d k => d.erase k) memory).lookup k =
      if k ∈ ks then none else memory.lookup k := by
  induction ks generalizing memory with
  | nil => rfl
  | cons k' ks ih =>
    rw [List.foldl_cons, ih]
    by_cases hk : k = k'
    · subst hk
      simp
    · simp [hk, AList.lookup_erase_ne hk]

/-- What a sweep leaves of a memory. -/
theorem lookup_sweep (memory : Memory) (expired : Entry → Bool) (k : Key) :
    (((memory.entries.filter fun e => expired e.2).map (·.1)).foldl
      (fun d k => d.erase k) memory).lookup k =
      (memory.lookup k).filter fun e => !expired e := by
  rw [lookup_foldl_erase_eq]
  have hmem : k ∈ (memory.entries.filter fun e => expired e.2).map (·.1) ↔
      ∃ e, memory.lookup k = some e ∧ expired e = true := by
    simp only [List.mem_map, List.mem_filter]
    constructor
    · rintro ⟨⟨k', e⟩, ⟨he, hexp⟩, rfl⟩
      exact ⟨e, AList.mem_lookup_iff.mpr he, hexp⟩
    · rintro ⟨e, he, hexp⟩
      exact ⟨⟨k, e⟩, ⟨AList.mem_lookup_iff.mp he, hexp⟩, rfl⟩
  cases hl : memory.lookup k with
  | none =>
    rw [hl] at hmem
    have hkeep : k ∉ (memory.entries.filter fun e => expired e.2).map (·.1) := fun hk => by
      obtain ⟨e, he, -⟩ := hmem.mp hk
      cases he
    rw [if_neg hkeep]
    rfl
  | some e =>
    rw [hl] at hmem
    cases hexp : expired e with
    | true =>
      rw [if_pos (hmem.mpr ⟨e, rfl, hexp⟩), Option.filter_some, hexp]
      rfl
    | false =>
      have hkeep : k ∉ (memory.entries.filter fun e => expired e.2).map (·.1) := fun hk => by
        obtain ⟨e', he', hexp'⟩ := hmem.mp hk
        rw [← Option.some.inj he', hexp] at hexp'
        cases hexp'
      rw [if_neg hkeep, Option.filter_some, hexp]
      rfl

variable {t : ChangeTracker} {nowTs : ℚ} {rows out : List Row}

/-- What a poll lets through, and what its overlay holds. -/
theorem select_spec {P : Row → ℚ → Prop} {prospective overlay : Memory}
    (h : t.select nowTs rows prospective = .ok (out, overlay)) (hp : Holds t.args prospective P)
    (hout : ∀ row ∈ out, P row nowTs) :
    (∀ row ∈ out, row ∈ rows) ∧ Holds t.args overlay P := by
  induction rows generalizing prospective out with
  | nil =>
    cases h
    exact ⟨fun row hrow => hrow, hp⟩
  | cons row rows ih =>
    simp only [ChangeTracker.select, bind_eq_ok] at h
    obtain ⟨write, -, h⟩ := h
    cases write with
    | true =>
      simp only [if_true, bind_eq_ok, pure_eq_ok] at h
      obtain ⟨⟨out', overlay'⟩, hselect, hpair⟩ := h
      obtain ⟨rfl, rfl⟩ := Prod.mk.inj hpair
      obtain ⟨hrow, hrest⟩ := List.forall_mem_cons.mp hout
      obtain ⟨hmem, hover⟩ := ih hselect (hp.insert hrow) hrest
      refine ⟨List.forall_mem_cons.mpr ⟨List.mem_cons_self, fun r hr => ?_⟩, hover⟩
      exact List.mem_cons_of_mem _ (hmem r hr)
    | false =>
      simp only [Bool.false_eq_true, if_false] at h
      obtain ⟨hmem, hover⟩ := ih h hp hout
      exact ⟨fun r hr => List.mem_cons_of_mem _ (hmem r hr), hover⟩

/-! ### Two trackers that agree -/

/-- **The simulation**, on memories: `m` is `m'` without some entries whose heartbeat is over at
`T`. -/
structure Forgets (a : TrackerArguments) (m m' : Memory) (T : ℚ) : Prop where
  kept : ∀ k e, m.lookup k = some e → m'.lookup k = some e
  elapsed : ∀ k e, m'.lookup k = some e → m.lookup k = none → a.heartbeatSeconds ≤ T - e.writtenAt
  numeric : Holds a m' fun row _ => Numeric a row

namespace Forgets

variable {m m' : Memory} {T : ℚ}

theorem later (h : Forgets a m m' T) (hT : T ≤ nowTs) : Forgets a m m' nowTs :=
  { h with elapsed := fun k e hk hk' => (h.elapsed k e hk hk').trans (sub_le_sub_right hT _) }

theorem empty : Forgets a ∅ ∅ T where
  kept _ _ hk := hk
  elapsed _ _ hk := by
    rw [AList.lookup_empty] at hk
    cases hk
  numeric := holds_empty _

/-- **The sweep** forgets entries whose heartbeat is over. -/
theorem sweep (h : Forgets a m m' nowTs) :
    Forgets a (((m.entries.filter fun e =>
      decide (a.heartbeatSeconds ≤ nowTs - e.2.writtenAt)).map (·.1)).foldl
        (fun d k => d.erase k) m) m' nowTs := by
  refine ⟨fun k e hk => h.kept k e (lookup_foldl_erase hk), fun k e hk hnone => ?_, h.numeric⟩
  rw [lookup_sweep m (fun e => decide (a.heartbeatSeconds ≤ nowTs - e.writtenAt))] at hnone
  cases hm : m.lookup k with
  | none => exact h.elapsed k e hk hm
  | some e' =>
    obtain rfl : e' = e := Option.some.inj ((h.kept k e' hm).symm.trans hk)
    rw [hm, Option.filter_some] at hnone
    by_contra hlt
    simp [hlt] at hnone

theorem insert (h : Forgets a m m' T) {row : Row} (hrow : Numeric a row) (ts : ℚ) :
    Forgets a (m.insert (a.keyOf row) (a.entryOf row ts))
      (m'.insert (a.keyOf row) (a.entryOf row ts)) T := by
  refine ⟨fun k e hk => ?_, fun k e hk hnone => ?_, h.numeric.insert hrow⟩
  · by_cases hkey : k = a.keyOf row
    · subst hkey
      rw [AList.lookup_insert] at hk ⊢
      exact hk
    · rw [AList.lookup_insert_ne hkey] at hk ⊢
      exact h.kept k e hk
  · by_cases hkey : k = a.keyOf row
    · subst hkey
      rw [AList.lookup_insert] at hnone
      cases hnone
    · rw [AList.lookup_insert_ne hkey] at hk hnone
      exact h.elapsed k e hk hnone

theorem foldl_insert (h : Forgets a m m' T) (hrows : ∀ row ∈ rows, Numeric a row) (ts : ℚ) :
    Forgets a (rows.foldl (fun d row => d.insert (a.keyOf row) (a.entryOf row ts)) m)
      (rows.foldl (fun d row => d.insert (a.keyOf row) (a.entryOf row ts)) m') T := by
  induction rows generalizing m m' with
  | nil => exact h
  | cons row rows ih =>
    obtain ⟨hrow, hrest⟩ := List.forall_mem_cons.mp hrows
    exact ih (h.insert hrow ts) hrest

theorem union (h : Forgets a m m' T) {overlay : Memory}
    (hover : Holds a overlay fun row _ => Numeric a row) :
    Forgets a (overlay ∪ m) (overlay ∪ m') T := by
  refine ⟨fun k e hk => ?_, fun k e hk hnone => ?_, Holds.union hover h.numeric⟩
  · rw [lookup_union] at hk ⊢
    cases hl : overlay.lookup k with
    | some e' =>
      rw [hl] at hk
      exact hk
    | none =>
      rw [hl] at hk
      exact h.kept k e hk
  · rw [lookup_union] at hk hnone
    cases hl : overlay.lookup k with
    | some e' =>
      rw [hl] at hnone
      cases hnone
    | none =>
      rw [hl] at hk hnone
      exact h.elapsed k e hk hnone

/-- **A decision does not tell the memories apart.** -/
theorem shouldWrite (h : Forgets a m m' nowTs) {row : Row} (hrow : Numeric a row) (k : Key)
    (prospective : Memory) :
    a.shouldWrite ((prospective.lookup k).orElse fun _ => m.lookup k) row nowTs =
      a.shouldWrite ((prospective.lookup k).orElse fun _ => m'.lookup k) row nowTs := by
  cases hp : prospective.lookup k with
  | some e => rfl
  | none =>
    change a.shouldWrite (m.lookup k) row nowTs = a.shouldWrite (m'.lookup k) row nowTs
    cases hm : m.lookup k with
    | some e => rw [h.kept k e hm]
    | none =>
      cases hm' : m'.lookup k with
      | none => rfl
      | some e =>
        -- forgotten by one of them: the row goes through in both
        have hover := h.elapsed k e hm' hm
        obtain ⟨row', ts, hnumeric, -, rfl⟩ := h.numeric k e hm'
        exact (shouldWrite_over hnumeric hrow hover).symm

end Forgets

/-- Two trackers that differ in forgotten entries, and in when they last swept. -/
def Agree (b r : ChangeTracker) (T : ℚ) : Prop :=
  ∃ m x, b = { r with last := m, lastExpiry := x } ∧ Forgets r.args m r.last T

variable {b r : ChangeTracker} {T : ℚ}

theorem Agree.maybeReset (h : Agree b r T) (date : String) :
    Agree (b.maybeReset date) (r.maybeReset date) T := by
  obtain ⟨m, x, rfl, hm⟩ := h
  unfold ChangeTracker.maybeReset
  split_ifs
  · exact ⟨∅, none, rfl, Forgets.empty⟩
  · exact ⟨m, x, rfl, hm⟩

theorem Agree.expire (h : Agree b r nowTs) : Agree (b.expireHeartbeatEntries nowTs) r nowTs := by
  obtain ⟨m, x, rfl, hm⟩ := h
  unfold ChangeTracker.expireHeartbeatEntries
  split_ifs
  · exact ⟨_, some nowTs, rfl, hm.sweep⟩
  · exact ⟨m, x, rfl, hm⟩

/-- Entering a call. -/
theorem Agree.enter (h : Agree b r T) (hT : T ≤ nowTs) (rows : List Row) (date : String) :
    Agree (b.enter rows date nowTs) (enterKeeping r rows date) nowTs := by
  obtain ⟨m, x, hb, hm⟩ := h
  have hlater : Agree b r nowTs := ⟨m, x, hb, hm.later hT⟩
  obtain ⟨m', x', hb', hm'⟩ := (hlater.maybeReset date).expire
  refine ⟨m', x', ?_, hm'⟩
  unfold ChangeTracker.enter enterKeeping
  rw [hb']
  rfl

theorem Agree.select (h : Agree b r nowTs) (hrows : ∀ row ∈ rows, Numeric r.args row)
    (prospective : Memory) :
    b.select nowTs rows prospective = r.select nowTs rows prospective := by
  obtain ⟨m, x, rfl, hm⟩ := h
  induction rows generalizing prospective with
  | nil => rfl
  | cons row rows ih =>
    obtain ⟨hrow, hrest⟩ := List.forall_mem_cons.mp hrows
    simp only [ChangeTracker.select, hm.shouldWrite hrow (r.args.keyOf row) prospective, ih hrest]

theorem Agree.outcome (h : Agree b r nowTs) (hrows : ∀ row ∈ rows, Numeric r.args row) :
    outcome b rows nowTs = outcome r rows nowTs := by
  have hselect := h.select hrows ∅
  unfold DedupExpiry.outcome
  rw [hselect]
  obtain ⟨m, x, rfl, hm⟩ := h
  rfl

/-- The rest of a call comes to the same. -/
theorem Agree.finish (h : Agree b r nowTs) (hrows : ∀ row ∈ rows, Numeric r.args row)
    (update : Bool) :
    (finish b rows nowTs update).2 = (finish r rows nowTs update).2 ∧
      Agree (finish b rows nowTs update).1 (finish r rows nowTs update).1 nowTs := by
  unfold DedupExpiry.finish
  rw [h.outcome hrows]
  obtain ⟨m, x, rfl, hm⟩ := h
  cases hs : DedupExpiry.outcome r rows nowTs with
  | error e => exact ⟨rfl, m, x, rfl, hm⟩
  | ok p =>
    obtain ⟨out, overlay⟩ := p
    cases update with
    | false => exact ⟨rfl, m, x, rfl, hm⟩
    | true =>
      have hselect := select_of_outcome hs
      have hout := (select_spec (P := fun _ _ => True) hselect (holds_empty _)
        fun _ _ => trivial).1
      have hover := (select_spec (P := fun row _ => Numeric r.args row) hselect (holds_empty _)
        fun row hrow => hrows row (hout row hrow)).2
      exact ⟨rfl, overlay ∪ m, x, rfl, hm.union hover⟩

/-- Committing the same rows to both. -/
theorem Agree.commit (h : Agree b r T) (hrows : ∀ row ∈ rows, Numeric r.args row) (date : String)
    (ts : ℚ) : Agree (b.commit rows date ts) (r.commit rows date ts) T := by
  have hreset := h.maybeReset date
  unfold ChangeTracker.commit
  rw [← maybeReset_args date] at hrows
  obtain ⟨m, x, hb, hm⟩ := hreset
  rw [hb]
  exact ⟨_, x, rfl, hm.foldl_insert hrows ts⟩

/-! ### A run of both -/

@[simp] theorem enterKeeping_args (rows : List Row) (date : String) :
    (enterKeeping t rows date).args = t.args := by
  simp [enterKeeping]

/-- How a call ends. -/
theorem finish_cases (t : ChangeTracker) (rows : List Row) (nowTs : ℚ) (update : Bool) :
    (∃ e, finish t rows nowTs update = (t, .error e)) ∨
      ∃ out overlay, t.select nowTs rows ∅ = .ok (out, overlay) ∧
        finish t rows nowTs update =
          (if update then { t with last := overlay ∪ t.last } else t, .ok out) := by
  unfold finish
  cases hs : outcome t rows nowTs with
  | error e => exact Or.inl ⟨e, rfl⟩
  | ok p =>
    obtain ⟨out, overlay⟩ := p
    exact Or.inr ⟨out, overlay, select_of_outcome hs, rfl⟩

@[simp] theorem finish_args (t : ChangeTracker) (rows : List Row) (nowTs : ℚ) (update : Bool) :
    (finish t rows nowTs update).1.args = t.args := by
  rcases finish_cases t rows nowTs update with ⟨e, h⟩ | ⟨out, overlay, -, h⟩
  · rw [h]
  · rw [h]
    cases update <;> rfl

@[simp] theorem finish_day (t : ChangeTracker) (rows : List Row) (nowTs : ℚ) (update : Bool) :
    (finish t rows nowTs update).1.day = t.day := by
  rcases finish_cases t rows nowTs update with ⟨e, h⟩ | ⟨out, overlay, -, h⟩
  · rw [h]
  · rw [h]
    cases update <;> rfl

/-- The rows let through are rows of the call. -/
theorem mem_of_finish {update : Bool} (h : (finish t rows nowTs update).2 = .ok out) :
    ∀ row ∈ out, row ∈ rows := by
  rcases finish_cases t rows nowTs update with ⟨e, hf⟩ | ⟨out', overlay, hselect, hf⟩
  · rw [hf] at h
    cases h
  · rw [hf] at h
    cases h
    exact (select_spec (P := fun _ _ => True) hselect (holds_empty _) fun _ _ => trivial).1

/-- **One call of both**: the same outcome, and the trackers still agree. -/
theorem Agree.call {s s' : Session} (h : Agree s.tracker s'.tracker T)
    (hout : s.outcomes = s'.outcomes) {c : Call} (hT : T ≤ c.nowTs)
    (hrows : ∀ row ∈ c.rows, Numeric s'.tracker.args row) :
    Agree (s.call ChangeTracker.filter c).tracker (s'.call filterKeeping c).tracker c.nowTs ∧
      (s.call ChangeTracker.filter c).outcomes = (s'.call filterKeeping c).outcomes ∧
      (s'.call filterKeeping c).tracker.args = s'.tracker.args := by
  have hentered := h.enter hT c.rows c.date
  rw [← enterKeeping_args c.rows c.date] at hrows
  obtain ⟨hsame, hagree⟩ := hentered.finish hrows c.update
  simp only [Session.call, Session.filtered, filter_eq, filterKeeping, hsame, hout]
  cases hf : (DedupExpiry.finish (enterKeeping s'.tracker c.rows c.date) c.rows c.nowTs
      c.update).2 with
  | error e => exact ⟨hagree, rfl, by simp⟩
  | ok out =>
    cases c.commits with
    | false => exact ⟨hagree, rfl, by simp⟩
    | true =>
      refine ⟨hagree.commit (fun row hrow => ?_) c.date c.nowTs, rfl, by
        simp [ChangeTracker.commit]⟩
      rw [finish_args]
      exact hrows row (mem_of_finish hf row hrow)

/-- **A run of both**: the same outcomes. -/
theorem Agree.calls {s s' : Session} (h : Agree s.tracker s'.tracker T)
    (hout : s.outcomes = s'.outcomes) {calls : List Call}
    (hsorted : (T :: calls.map Call.nowTs).Pairwise (· ≤ ·))
    (hrows : ∀ c ∈ calls, ∀ row ∈ c.rows, Numeric s'.tracker.args row) :
    (calls.foldl (Session.call ChangeTracker.filter) s).outcomes =
      (calls.foldl (Session.call filterKeeping) s').outcomes := by
  induction calls generalizing s s' T with
  | nil => exact hout
  | cons c calls ih =>
    obtain ⟨hfirst, hrest⟩ := List.forall_mem_cons.mp hrows
    obtain ⟨hT, hsorted⟩ := List.pairwise_cons.mp hsorted
    obtain ⟨hagree, houtcomes, hargs⟩ := h.call hout (hT c.nowTs List.mem_cons_self) hfirst
    refine ih hagree houtcomes hsorted ?_
    rw [hargs]
    exact hrest

/-! ### What is remembered -/

/-- A tracker that swept last at `L`: what it remembers is written, and was not over then. -/
structure Swept (t : ChangeTracker) (writes : List Write) (L : ℚ) : Prop where
  expiry : t.lastExpiry = some L
  memory : Holds t.args t.last fun row ts =>
    (t.args.keyOf row, ts) ∈ writes ∧ L - ts < t.args.heartbeatSeconds

/-- **The invariant** between calls: nothing is remembered, or a sweep was made by `T`. -/
def Tidy (t : ChangeTracker) (writes : List Write) (T : ℚ) : Prop :=
  (t.last = ∅ ∧ t.lastExpiry = none) ∨ ∃ L ≤ T, Swept t writes L

variable {writes : List Write} {L : ℚ}

theorem Swept.mono (h : Swept t writes L) (new : List Write) : Swept t (writes ++ new) L where
  expiry := h.expiry
  memory := h.memory.mono fun _ _ hw => ⟨List.mem_append_left _ hw.1, hw.2⟩

theorem Tidy.maybeReset (h : Tidy t writes T) (date : String) :
    Tidy (t.maybeReset date) writes T := by
  unfold ChangeTracker.maybeReset
  split_ifs
  · exact Or.inl ⟨rfl, rfl⟩
  · exact h

/-- **The throttled sweep**: the last one was less than a minute, or a heartbeat, ago. -/
theorem Tidy.expire (h : Tidy t writes T) (hT : T ≤ nowTs) (hpos : 0 < t.args.heartbeatSeconds) :
    ∃ L ≤ nowTs, nowTs - L < min 60 t.args.heartbeatSeconds ∧
      Swept (t.expireHeartbeatEntries nowTs) writes L := by
  have hmin : 0 < min 60 t.args.heartbeatSeconds := lt_min (by norm_num) hpos
  unfold ChangeTracker.expireHeartbeatEntries
  split_ifs with hsweep
  · refine ⟨nowTs, le_refl _, by rwa [sub_self], rfl, fun k e hk => ?_⟩
    have hkept := lookup_foldl_erase hk
    have hyoung : nowTs - e.writtenAt < t.args.heartbeatSeconds := by
      have hk' := hk
      rw [lookup_sweep t.last
        (fun e => decide (t.args.heartbeatSeconds ≤ nowTs - e.writtenAt)), hkept] at hk'
      by_contra hle
      rw [Option.filter_some, decide_eq_true (not_lt.mp hle)] at hk'
      cases hk'
    rcases h with ⟨hempty, -⟩ | ⟨L, -, hswept⟩
    · rw [hempty, AList.lookup_empty] at hkept
      cases hkept
    · obtain ⟨row, ts, ⟨hwrite, -⟩, hkey, rfl⟩ := hswept.memory k e hkept
      exact ⟨row, ts, ⟨hwrite, hyoung⟩, hkey, rfl⟩
  · rcases h with ⟨-, hnone⟩ | ⟨L, hL, hswept⟩
    · rw [hnone] at hsweep
      exact absurd rfl hsweep
    · refine ⟨L, hL.trans hT, ?_, hswept⟩
      rw [hswept.expiry] at hsweep
      simpa using hsweep

/-- What a call remembers and what it writes. -/
theorem Swept.finish (h : Swept t writes L) (hL : L ≤ nowTs) (hpos : 0 < t.args.heartbeatSeconds)
    (rows : List Row) (update : Bool) :
    Swept (finish t rows nowTs update).1
      (writes ++ match (finish t rows nowTs update).2 with
        | .ok out => if update then writesOf t.args nowTs out else []
        | .error _ => []) L := by
  rcases finish_cases t rows nowTs update with ⟨e, hf⟩ | ⟨out, overlay, hselect, hf⟩
  · rw [hf]
    exact h.mono _
  · rw [hf]
    cases update with
    | false => exact h.mono _
    | true =>
      refine ⟨h.expiry, Holds.union ?_ (h.mono _).memory⟩
      refine (select_spec hselect (holds_empty _) fun row hrow => ?_).2
      refine ⟨List.mem_append_right _ (List.mem_map_of_mem hrow), ?_⟩
      exact (sub_nonpos.mpr hL).trans_lt hpos

theorem Swept.commit (h : Swept t writes L) {date : String} (hday : t.day = some date)
    (hL : L ≤ nowTs) (hpos : 0 < t.args.heartbeatSeconds) (rows : List Row) :
    Swept (t.commit rows date nowTs) (writes ++ writesOf t.args nowTs rows) L := by
  have hreset : t.maybeReset date = t := if_neg (not_not.mpr hday)
  unfold ChangeTracker.commit
  rw [hreset]
  refine ⟨h.expiry, Holds.foldl_insert (h.mono _).memory fun row hrow => ?_⟩
  exact ⟨List.mem_append_right _ (List.mem_map_of_mem hrow), (sub_nonpos.mpr hL).trans_lt hpos⟩

/-- **The call of `filter`** leaves a tracker that swept lately. -/
theorem Tidy.filtered {s : Session} (h : Tidy s.tracker s.writes T) {c : Call}
    (hT : T ≤ c.nowTs) (hpos : 0 < s.tracker.args.heartbeatSeconds) :
    ∃ L ≤ c.nowTs, c.nowTs - L < min 60 s.tracker.args.heartbeatSeconds ∧
      Swept (s.filtered ChangeTracker.filter c).tracker
        (s.filtered ChangeTracker.filter c).writes L := by
  have hargs := maybeReset_args (t := s.tracker) c.date
  obtain ⟨L, hL, hlate, hswept⟩ := (h.maybeReset c.date).expire hT (by rwa [hargs])
  rw [hargs] at hlate
  have hentered : Swept (s.tracker.enter c.rows c.date c.nowTs) s.writes L :=
    ⟨hswept.expiry, hswept.memory⟩
  have hfinish := hentered.finish hL (by rwa [enter_args]) c.rows c.update
  refine ⟨L, hL, hlate, ?_⟩
  simp only [Session.filtered, filter_eq]
  rwa [enter_args] at hfinish

@[simp] theorem filtered_args (s : Session) (c : Call) :
    (s.filtered ChangeTracker.filter c).tracker.args = s.tracker.args := by
  simp [Session.filtered, filter_eq]

/-- **One call keeps the invariant.** -/
theorem Tidy.call {s : Session} (h : Tidy s.tracker s.writes T) {c : Call} (hT : T ≤ c.nowTs)
    (hpos : 0 < s.tracker.args.heartbeatSeconds) :
    Tidy (s.call ChangeTracker.filter c).tracker (s.call ChangeTracker.filter c).writes c.nowTs ∧
      (s.call ChangeTracker.filter c).tracker.args = s.tracker.args := by
  obtain ⟨L, hL, -, hswept⟩ := h.filtered hT hpos
  unfold Session.call
  cases (s.tracker.filter c.rows c.date c.nowTs c.update).2 with
  | error e => exact ⟨Or.inr ⟨L, hL, hswept⟩, by simp⟩
  | ok out =>
    cases c.commits with
    | false => exact ⟨Or.inr ⟨L, hL, hswept⟩, by simp⟩
    | true =>
      have hday : (s.filtered ChangeTracker.filter c).tracker.day = some c.date := by
        simp [Session.filtered, filter_eq]
      have hcommit := hswept.commit hday hL (by rwa [filtered_args]) out
      rw [filtered_args] at hcommit
      exact ⟨Or.inr ⟨L, hL, hcommit⟩, by simp [ChangeTracker.commit]⟩

/-- The keys written less than `window` before `nowTs`. -/
def keysWithin (writes : List Write) (nowTs window : ℚ) : List Key :=
  ((writes.filter fun w => decide (nowTs - w.2 < window)).map Prod.fst).dedup

/-- A tracker's memory is bounded: no entry outlives its heartbeat by more than the throttle. -/
structure Bounded (t : ChangeTracker) (writes : List Write) (nowTs window : ℚ) : Prop where
  young : ∀ e ∈ t.last.entries, nowTs - e.2.writtenAt < window
  size : t.last.keys.length ≤ (keysWithin writes nowTs window).length

theorem Swept.bounded (h : Swept t writes L)
    (hlate : nowTs - L < min 60 t.args.heartbeatSeconds) :
    Bounded t writes nowTs
      (t.args.heartbeatSeconds + min 60 t.args.heartbeatSeconds) := by
  have hentry : ∀ k e, t.last.lookup k = some e → (k, e.writtenAt) ∈ writes ∧
      nowTs - e.writtenAt < t.args.heartbeatSeconds + min 60 t.args.heartbeatSeconds := by
    intro k e hk
    obtain ⟨row, ts, ⟨hwrite, hyoung⟩, rfl, rfl⟩ := h.memory k e hk
    refine ⟨hwrite, ?_⟩
    have hsum : nowTs - ts = (L - ts) + (nowTs - L) := by ring
    change nowTs - ts < _
    rw [hsum]
    exact add_lt_add hyoung hlate
  refine ⟨fun e he => (hentry e.1 e.2 (AList.mem_lookup_iff.mpr he)).2, ?_⟩
  refine (List.subperm_of_subset t.last.keys_nodup fun k hk => ?_).length_le
  obtain ⟨e, he⟩ := Option.isSome_iff_exists.mp (AList.lookup_isSome.mpr (AList.mem_keys.mpr hk))
  obtain ⟨hwrite, hyoung⟩ := hentry k e he
  rw [keysWithin, List.mem_dedup]
  exact List.mem_map.mpr
    ⟨(k, e.writtenAt), List.mem_filter.mpr ⟨hwrite, decide_eq_true hyoung⟩, rfl⟩

theorem Tidy.calls {s : Session} (h : Tidy s.tracker s.writes T)
    (hpos : 0 < s.tracker.args.heartbeatSeconds) {calls : List Call} {nowTs : ℚ}
    (hsorted : (T :: calls.map Call.nowTs).Pairwise (· ≤ ·))
    (hlast : ∀ x ∈ T :: calls.map Call.nowTs, x ≤ nowTs) :
    ∃ T' ≤ nowTs, Tidy (calls.foldl (Session.call ChangeTracker.filter) s).tracker
      (calls.foldl (Session.call ChangeTracker.filter) s).writes T' ∧
      (calls.foldl (Session.call ChangeTracker.filter) s).tracker.args = s.tracker.args := by
  induction calls generalizing s T with
  | nil => exact ⟨T, hlast T List.mem_cons_self, h, rfl⟩
  | cons c calls ih =>
    obtain ⟨hT, hsorted⟩ := List.pairwise_cons.mp hsorted
    obtain ⟨htidy, hargs⟩ := h.call (hT c.nowTs List.mem_cons_self) hpos
    obtain ⟨T', hT', htidy', hargs'⟩ := ih htidy (by rwa [hargs]) hsorted fun x hx =>
      hlast x (List.mem_cons_of_mem _ hx)
    exact ⟨T', hT', htidy', hargs'.trans hargs⟩

/-! ### Parsed rows are numeric -/

/-- The columns under a tolerance hold numbers, or `None`. -/
def NumericColumns (row : Row) : Prop :=
  ∀ p ∈ row, p.1 ∈ tripUpdateTolerantNumericFields → p.2.isNone = true ∨ p.2.number.isSome = true

variable {pb : Protobuf}

theorem NumericColumns.append {r s : Row} (hr : NumericColumns r) (hs : NumericColumns s) :
    NumericColumns (r ++ s) := fun p hp => (List.mem_append.mp hp).elim (hr p) (hs p)

theorem numericColumns_of_names {row : Row}
    (h : ∀ c ∈ row.map Prod.fst, c ∉ tripUpdateTolerantNumericFields) : NumericColumns row :=
  fun p hp hc => absurd hc (h p.1 (List.mem_map_of_mem hp))

theorem numeric_int32Value (i : Option Int32) :
    (int32Value i).isNone = true ∨ (int32Value i).number.isSome = true := by
  cases i with
  | none => exact Or.inl rfl
  | some i => exact Or.inr rfl

theorem numeric_int64Value (i : Option Int64) :
    (int64Value i).isNone = true ∨ (int64Value i).number.isSome = true := by
  cases i with
  | none => exact Or.inl rfl
  | some i => exact Or.inr rfl

theorem numericColumns_poll (feed : FeedMessage) (context : PollContext) (entity : FeedEntity) :
    NumericColumns (pollContext pb feed context ++ entityContext entity) :=
  numericColumns_of_names (by
    simp only [pollContext, entityContext, List.map_append, List.map_cons, List.map_nil]
    decide +kernel)

theorem numericColumns_tripDesc {trip : Option TripDescriptor} {row : Row}
    (h : tripDesc pb trip = .ok row) : NumericColumns row := by
  cases trip with
  | none =>
    cases h
    exact numericColumns_of_names (by decide +kernel)
  | some trip =>
    simp only [tripDesc, bind_eq_ok, pure_eq_ok] at h
    obtain ⟨modified, -, rfl⟩ := h
    refine numericColumns_of_names ?_
    simp only [List.map_cons, List.map_nil]
    decide +kernel

theorem numericColumns_vehicleDesc (vehicle : Option VehicleDescriptor) :
    NumericColumns (vehicleDesc pb vehicle) := by
  refine NumericColumns.append (numericColumns_of_names ?_) ?_
  · simp only [List.map_cons, List.map_nil]
    decide +kernel
  · cases (vehicle.getD {}).realcity with
    | none =>
      unfold NumericColumns
      decide +kernel
    | some v =>
      refine NumericColumns.append (r := [_, _, _, _]) (numericColumns_of_names ?_) ?_
      · simp only [List.map_cons, List.map_nil]
        decide +kernel
      · rintro p hp -
        obtain rfl := List.mem_singleton.mp hp
        exact numeric_int32Value v.stopDistance

theorem numericColumns_stopEvent (event : Option StopTimeEvent) (stem : String) :
    NumericColumns (stopEvent event stem) := by
  rintro p hp -
  simp only [stopEvent, List.mem_cons, List.not_mem_nil, or_false] at hp
  rcases hp with rfl | rfl | rfl | rfl
  · exact numeric_int32Value _
  · exact numeric_int64Value _
  · exact numeric_int32Value _
  · exact numeric_int64Value _

theorem numericColumns_stop {r : Row} (h : NumericColumns r)
    (arrival departure : Option StopTimeEvent) (extension : Option RealcityStopTimeUpdate) :
    NumericColumns (r ++ stopEvent arrival "arrival" ++ stopEvent departure "departure" ++
      realcityStopUpdate extension) :=
  ((h.append (numericColumns_stopEvent _ _)).append (numericColumns_stopEvent _ _)).append
    ((numericColumns_stopEvent _ _).append (numericColumns_stopEvent _ _))

theorem numericColumns_stopRow {index : ℕ} {stop : StopTimeUpdate} {row : Row}
    (h : stopRow pb index stop = .ok row) : NumericColumns row := by
  simp only [stopRow, bind_eq_ok, pure_eq_ok] at h
  obtain ⟨properties, -, rfl⟩ := h
  refine numericColumns_stop (numericColumns_of_names ?_) _ _ _
  simp only [List.map_cons, List.map_nil]
  decide +kernel

theorem numericColumns_stopRows {base : Row} (hbase : NumericColumns base) {index : ℕ}
    {stops : List StopTimeUpdate} {rows : List Row} (h : stopRows pb base index stops = .ok rows) :
    ∀ row ∈ rows, NumericColumns row := by
  induction stops generalizing index rows with
  | nil =>
    cases h
    exact fun row hrow => by cases hrow
  | cons stop stops ih =>
    simp only [stopRows, bind_eq_ok, pure_eq_ok] at h
    obtain ⟨row, hrow, rest, hrest, rfl⟩ := h
    exact List.forall_mem_cons.mpr ⟨hbase.append (numericColumns_stopRow hrow), ih hrest⟩

theorem numericColumns_tripUpdateRows {feed : FeedMessage} {context : PollContext}
    {entity : FeedEntity} {update : TripUpdate} {rows : List Row}
    (h : tripUpdateRows pb (pollContext pb feed context) entity update = .ok rows) :
    ∀ row ∈ rows, NumericColumns row := by
  simp only [tripUpdateRows, bind_eq_ok] at h
  obtain ⟨trip, htrip, properties, -, h⟩ := h
  have hdelay : NumericColumns [("trip_update_timestamp", uint64Value update.timestamp),
      ("trip_delay", int32Value update.delay), ("trip_properties_json", properties)] := by
    intro p hp hc
    simp only [List.mem_cons, List.not_mem_nil, or_false] at hp
    rcases hp with rfl | rfl | rfl
    · exact absurd hc (by simp only []; decide +kernel)
    · exact numeric_int32Value _
    · exact absurd hc (by simp only []; decide +kernel)
  have hbase := (((@numericColumns_poll pb feed context entity).append hdelay).append
    (@numericColumns_vehicleDesc pb update.vehicle)).append (numericColumns_tripDesc htrip)
  split_ifs at h
  · rw [pure_eq_ok] at h
    subst h
    intro row hrow
    obtain rfl := List.mem_singleton.mp hrow
    refine hbase.append (numericColumns_stop (numericColumns_of_names ?_) none none none)
    decide +kernel
  · exact numericColumns_stopRows hbase h

theorem forEntities_forall {item : FeedEntity → Except PyError (List Row)} {P : Row → Prop}
    (hitem : ∀ e own, item e = .ok own → ∀ row ∈ own, P row) {entities : List FeedEntity}
    {rows : List Row} (h : forEntities item entities = .ok rows) : ∀ row ∈ rows, P row := by
  induction entities generalizing rows with
  | nil =>
    cases h
    exact fun row hrow => by cases hrow
  | cons entity entities ih =>
    simp only [forEntities, bind_eq_ok, pure_eq_ok] at h
    obtain ⟨own, hown, rest, hrest, rfl⟩ := h
    exact List.forall_mem_append.mpr ⟨hitem entity own hown, ih hrest⟩

theorem numericColumns_parseTripUpdates {feed : FeedMessage} {context : PollContext}
    {rows : List Row} (h : parseTripUpdates pb feed context = .ok rows) :
    ∀ row ∈ rows, NumericColumns row := by
  refine forEntities_forall (fun e own hown => ?_) h
  cases hu : e.tripUpdate with
  | none =>
    rw [hu] at hown
    cases hown
    intro row hrow
    unfold deletionRow at hrow
    split_ifs at hrow
    · obtain rfl := List.mem_singleton.mp hrow
      exact numericColumns_poll feed context e
    · cases hrow
  | some u =>
    rw [hu] at hown
    exact numericColumns_tripUpdateRows hown

/-- **The rows a parser returns** are numeric for the tracker of its feed. -/
theorem numeric_of_parsed {c : CollectorConfig} {feed : Feed} {message : FeedMessage}
    {context : PollContext} {rows : List Row} (ha : trackerArguments c feed = some a)
    (h : parsers pb feed message context = .ok rows) : ∀ row ∈ rows, Numeric a row := by
  cases feed with
  | vehiclepositions => cases ha
  | alerts =>
    cases ha
    exact fun row _ f hf => by cases hf
  | tripupdates =>
    cases ha
    intro row hrow f hf _
    have hcolumns := numericColumns_parseTripUpdates h row hrow
    unfold Row.get
    cases hl : row.lookup f with
    | none => exact Or.inl rfl
    | some v =>
      obtain ⟨l, r, hsplit, -⟩ := List.lookup_eq_some_iff.mp hl
      exact hcolumns (f, v) (by simp [hsplit]) hf

/-! ### Expiry -/

theorem init_spec (h : ChangeTracker.init a = .ok t) :
    t.args = a ∧ t.last = ∅ ∧ t.lastExpiry = none := by
  unfold ChangeTracker.init at h
  split_ifs at h
  cases h
  exact ⟨rfl, rfl, rfl⟩

theorem exists_start {calls : List Call} (h : (calls.map Call.nowTs).Pairwise (· ≤ ·)) :
    ∃ T, (T :: calls.map Call.nowTs).Pairwise (· ≤ ·) := by
  cases calls with
  | nil => exact ⟨0, List.pairwise_singleton _ _⟩
  | cons c calls =>
    refine ⟨c.nowTs, List.pairwise_cons.mpr ⟨List.forall_mem_cons.mpr ⟨le_refl _, ?_⟩, h⟩⟩
    exact (List.pairwise_cons.mp h).1

/-- **Expiry is invisible and bounds memory**: over numeric rows the tracker decides as one that
never expires entries within a day; over any rows, after every call of `filter` its entries are
younger than a heartbeat and the throttle, and no more than the keys written in that window. -/
theorem expiry_invisible (hinit : ChangeTracker.init a = .ok t) (hpos : 0 < a.heartbeatSeconds)
    {calls : List Call} (hsorted : (calls.map Call.nowTs).Pairwise (· ≤ ·)) :
    ((∀ c ∈ calls, ∀ row ∈ c.rows, Numeric a row) →
      (Session.run ChangeTracker.filter t calls).outcomes =
        (Session.run filterKeeping t calls).outcomes) ∧
      ∀ before c after, calls = before ++ c :: after →
        let f := (Session.run ChangeTracker.filter t before).filtered ChangeTracker.filter c
        Bounded f.tracker f.writes c.nowTs (a.heartbeatSeconds + min 60 a.heartbeatSeconds) := by
  obtain ⟨rfl, hlast, hexpiry⟩ := init_spec hinit
  obtain ⟨T, hstart⟩ := exists_start hsorted
  constructor
  · intro hrows
    have hagree : Agree ({ tracker := t } : Session).tracker ({ tracker := t } : Session).tracker
        T := by
      refine ⟨t.last, t.lastExpiry, rfl, ?_⟩
      change Forgets t.args t.last t.last T
      rw [hlast]
      exact Forgets.empty
    exact hagree.calls rfl hstart hrows
  · rintro before c after rfl
    rw [List.map_append, ← List.cons_append] at hstart
    obtain ⟨hbefore, -, hlater⟩ := List.pairwise_append.mp hstart
    have hinitial : Tidy ({ tracker := t } : Session).tracker ({ tracker := t } : Session).writes
        T := Or.inl ⟨hlast, hexpiry⟩
    obtain ⟨T', hT', htidy, hargs⟩ := hinitial.calls hpos hbefore fun x hx =>
      hlater x hx c.nowTs (List.mem_map_of_mem List.mem_cons_self)
    obtain ⟨L, -, hlate, hswept⟩ := htidy.filtered hT' (by rwa [hargs])
    rw [hargs] at hlate
    have hfargs := filtered_args
      (before.foldl (Session.call ChangeTracker.filter) { tracker := t }) c
    rw [hargs] at hfargs
    have hbounded := hswept.bounded (by rwa [hfargs])
    rwa [hfargs] at hbounded

/-- A tracker of delays, with a heartbeat of half a minute. -/
def delayTracker : ChangeTracker where
  args :=
    { keyFields := ["id"], numericToleranceFields := ["delay"], tolerance := 2
      heartbeatSeconds := 30 }
  valid :=
    { tolerances_known := rfl
      tolerance_nonneg := by norm_num
      tolerances_nonneg := fun p hp => by cases hp
      tracked := List.cons_ne_nil _ _
      signals_known := TrackerArguments.unknownSignals_eq_nil (List.nil_subset _)
      nullGuard_pos := by norm_num }

/-- A row with a delay, filtered and written at a time. -/
def delayCall (delay : Value) (nowTs : ℚ) : Call where
  rows := [[("id", .str "T1"), ("delay", delay)]]
  date := "2026-01-01"
  nowTs := nowTs
  update := true
  commits := false

/-- A delay that moves by two seconds within its heartbeat, and is written again after it. -/
theorem expiry_invisible_delays :
    let calls := [delayCall (.int 5) 0, delayCall (.int 7) 20, delayCall (.int 7) 40]
    ((∀ c ∈ calls, ∀ row ∈ c.rows, Numeric delayTracker.args row) →
      (Session.run ChangeTracker.filter delayTracker calls).outcomes =
        (Session.run filterKeeping delayTracker calls).outcomes) ∧
      ∀ before c after, calls = before ++ c :: after →
        let f := (Session.run ChangeTracker.filter delayTracker before).filtered
          ChangeTracker.filter c
        Bounded f.tracker f.writes c.nowTs (30 + min 60 30) := by
  intro calls
  exact expiry_invisible (ChangeTracker.init_of_valid delayTracker.valid) (by decide +kernel)
    (by decide +kernel)

/-- Over any rows it is visible: a value that is no number raises where its predecessor is
remembered, and goes through where that is forgotten. -/
theorem not_expiry_invisible :
    ¬ ∀ (a : TrackerArguments) (t : ChangeTracker), ChangeTracker.init a = .ok t →
      0 < a.heartbeatSeconds → ∀ calls : List Call,
        (calls.map Call.nowTs).Pairwise (· ≤ ·) →
        (Session.run ChangeTracker.filter t calls).outcomes =
          (Session.run filterKeeping t calls).outcomes := by
  intro h
  have hsame := h _ delayTracker (ChangeTracker.init_of_valid delayTracker.valid)
    (by decide +kernel) [delayCall (.int 5) 0, delayCall (.str "late") 60] (by decide +kernel)
  have hok := congrArg (fun outcomes => outcomes.map Except.isOk) hsame
  revert hok
  decide +kernel

end BkkCollector.Realtime.DedupExpiry
