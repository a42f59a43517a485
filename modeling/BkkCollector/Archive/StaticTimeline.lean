import BkkCollector.Archive.StaticGtfs
import BkkCollector.Logic.Timeline

/-! # The static timeline

Which static version was in force: at an instant (`observed_version_at`), over a range
(`observed_timeline`), and at the end of a date (`applicable_version`), read off the same history of
checks. The instants are exact.

* `timeline_iff`: the timeline is well formed and agrees with the lookup exactly if checks of one
  instant agree and a version keeps its path (`Consistent`); `applicable_version` agrees with it
  exactly if moreover no check has a time that is no text.
* `not_timeline`: of two checks at one instant the lookup takes the first, the timeline the last. -/

namespace BkkCollector.Archive.StaticTimeline

open BkkCollector.Python.Objects BkkCollector.Python.Documents
open BkkCollector.Logic.Timeline

/-! ### The functions -/

/-- The library calls: `str(..)`, and `datetime.fromisoformat(text.replace("Z", "+00:00"))` as a
timestamp, nothing where it raises `ValueError`. -/
structure Clock where
  textOf : Doc → String
  textOf_str : ∀ s, textOf (.str s) = s
  isoTimestamp : String → Option ℚ

/-- `event.get(key)`, of an object. -/
def field (event : Doc) (key : String) : Doc :=
  match event with
  | .dict members => (members.lookup key).getD .null
  | _ => .null

/-- What a value is for `==`: numbers by their value. -/
def valueKey (d : Doc) : Doc :=
  match d.number with
  | some q => .float (some q)
  | none => d

/-- `_checked_timestamp`. -/
def checkedTimestamp (C : Clock) (event : Doc) : Option ℚ :=
  match event.item "checked_at" with
  | .ok value => C.isoTimestamp (C.textOf value)
  | .error _ => none

/-- `_applicability_confidence`. -/
def applicabilityConfidence (event : Doc) : String :=
  if (field event "source").eqStr "legacy_archive_migration" then "legacy_schedule_uncertain"
  else "collector_observed"

/-- The events with a time, each with it. -/
def checkedEvents (C : Clock) (events : List Doc) : List (ℚ × Doc) :=
  events.filterMap fun event => (checkedTimestamp C event).map fun checked => (checked, event)

/-- What `observed_version_at` adds to an event. -/
structure ObservedVersion where
  event : Doc
  observedFrom : ℚ
  applicabilityConfidence : String

/-- `observed_version_at`; `events` is the history. -/
def observedVersionAt (C : Clock) (events : List Doc) (timestamp : ℚ) : Option ObservedVersion :=
  let candidates := (checkedEvents C events).filter fun item => decide (item.1 ≤ timestamp)
  (firstLatest candidates).map fun item =>
    ⟨item.2, item.1, StaticTimeline.applicabilityConfidence item.2⟩

/-- A segment without its ends. -/
structure Version where
  observedAt : Doc
  sha256 : Doc
  size : Doc
  versionPath : Doc
  feedVersion : Doc
  source : Doc
  applicabilityConfidence : String

/-- The version of an event. -/
def versionOf (event : Doc) : Version where
  observedAt := field event "checked_at"
  sha256 := field event "sha256"
  size := field event "size"
  versionPath := field event "version_path"
  feedVersion := field event "feed_version"
  source := field event "source"
  applicabilityConfidence := StaticTimeline.applicabilityConfidence event

/-- `timeline[-1]["sha256"] == segment["sha256"]`, and the same for the confidence. -/
def versionKey (v : Version) : Doc × String := (valueKey v.sha256, v.applicabilityConfidence)

/-- The path, for `==`. -/
def versionLabel (v : Version) : Doc := valueKey v.versionPath

/-- A segment, from `effective_from` to `effective_until`. -/
abbrev Segment := Span ℚ Version

/-- The `boundaries`: the event in force at the start, and those within the range. -/
def boundaries (C : Clock) (events : List Doc) (start stop : ℚ) : List (ℚ × Doc) :=
  let parsed := (checkedEvents C events).insertionSort fun x y => x.1 ≤ y.1
  let before := parsed.filter fun item => decide (item.1 ≤ start)
  (firstLatest before).toList ++
    parsed.filter fun item => decide (start < item.1) && decide (item.1 < stop)

/-- A boundary, from `max(start_timestamp, checked)`. -/
def boundaryItem (start : ℚ) (item : ℚ × Doc) : ℚ × Version := (max start item.1, versionOf item.2)

/-- `observed_timeline`. Each segment reaches to the next boundary, and joins the one before it where
`versionKey` is the same. -/
def observedTimeline (C : Clock) (events : List Doc) (start stop : ℚ) :
    Except PyError (List Segment) :=
  if stop ≤ start then .error ⟨.valueError, "static GTFS timeline end must be after start"⟩
  else .ok (joined versionKey stop ((boundaries C events start stop).map (boundaryItem start)))

/-- The candidates of `applicable_version`: a time that is no text has no `replace`. -/
def applicableCandidates (C : Clock) (stop : ℚ) : List Doc → Except PyError (List (ℚ × Doc))
  | [] => .ok []
  | event :: events =>
    match event.item "checked_at" with
    | .error _ => applicableCandidates C stop events
    | .ok value =>
      match value.asStr with
      | none => .error ⟨.attributeError, "object has no attribute 'replace'"⟩
      | some text =>
        match C.isoTimestamp text with
        | none => applicableCandidates C stop events
        | some checked =>
          (applicableCandidates C stop events).map fun candidates =>
            if checked < stop then (checked, event) :: candidates else candidates

/-- `applicable_version` of the date that starts at `day`. -/
def applicableVersion (C : Clock) (events : List Doc) (day : ℚ) : Except PyError (Option Doc) :=
  (applicableCandidates C (day + 86400) events).map fun candidates =>
    (firstLatest candidates).map Prod.snd

/-! ### What they should say -/

/-- **A timeline agrees with the lookup** over the range: its segments are nonempty and follow one
another from the later of the start and the first observation to the end, neighbours differ in bytes
or confidence, and each instant of the range is in a segment of what the lookup finds, if it finds
anything. -/
structure Agrees (C : Clock) (events : List Doc) (start stop : ℚ) (timeline : List Segment) :
    Prop where
  nonempty : ∀ s ∈ timeline, s.start < s.stop
  contiguous : timeline.IsChain fun s u => s.stop = u.start
  first : ∀ s, timeline.head? = some s →
    ∃ o ∈ checkedEvents C events, (∀ p ∈ checkedEvents C events, o.1 ≤ p.1) ∧
      s.start = max start o.1
  last : ∀ s, timeline.getLast? = some s → s.stop = stop
  differ : timeline.IsChain fun s u => versionKey s.value ≠ versionKey u.value
  lookup : ∀ t, start ≤ t → t < stop → ∀ s ∈ timeline, s.Contains t →
    ∃ v, observedVersionAt C events t = some v ∧
      valueKey s.value.sha256 = valueKey (field v.event "sha256") ∧
      s.value.applicabilityConfidence = v.applicabilityConfidence ∧
      valueKey s.value.versionPath = valueKey (field v.event "version_path")
  covers : ∀ t, start ≤ t → t < stop →
    ((∀ s ∈ timeline, ¬ s.Contains t) ↔ observedVersionAt C events t = none)

/-- `applicable_version` has the hash of the last segment. -/
def Applicable (C : Clock) (events : List Doc) (day : ℚ) (timeline : List Segment) : Prop :=
  ∃ event, applicableVersion C events day = .ok event ∧
    (timeline = [] → event = none) ∧
    ∀ s, timeline.getLast? = some s →
      ∃ e, event = some e ∧ valueKey (field e "sha256") = valueKey s.value.sha256

/-- **A consistent history** over the range: checks of one instant within it agree in bytes and
confidence, and what the lookup finds keeps its path as long as its bytes and its confidence. -/
structure Consistent (C : Clock) (events : List Doc) (start stop : ℚ) : Prop where
  agreed : ∀ x ∈ checkedEvents C events, ∀ y ∈ checkedEvents C events,
    start < x.1 → x.1 < stop → x.1 = y.1 → versionKey (versionOf x.2) = versionKey (versionOf y.2)
  steady : ∀ t t', start ≤ t → t ≤ t' → t' < stop → ∀ v v',
    observedVersionAt C events t = some v → observedVersionAt C events t' = some v' →
    (∀ s w, t ≤ s → s ≤ t' → observedVersionAt C events s = some w →
      versionKey (versionOf w.event) = versionKey (versionOf v.event)) →
    versionLabel (versionOf v'.event) = versionLabel (versionOf v.event)

/-- No check has a time that is no text. -/
def TextTimes (events : List Doc) : Prop :=
  ∀ event ∈ events, ∀ value, event.item "checked_at" = .ok value → ∃ text, value = .str text

/-! ### Boundaries -/

section Boundaries

variable {C : Clock} {events : List Doc} {start stop : ℚ}

theorem versionKey_versionOf (event : Doc) :
    versionKey (versionOf event) =
      (valueKey (field event "sha256"), applicabilityConfidence event) := rfl

/-- The items of the timeline. -/
def items (C : Clock) (events : List Doc) (start stop : ℚ) : List (ℚ × Version) :=
  (boundaries C events start stop).map (boundaryItem start)

theorem observedTimeline_eq (h : start < stop) :
    observedTimeline C events start stop = .ok (joined versionKey stop (items C events start stop)) :=
  if_neg (not_le.mpr h)

theorem mem_boundaries {x : ℚ × Doc} (h : x ∈ boundaries C events start stop) :
    x ∈ checkedEvents C events ∧
      (firstLatest (((checkedEvents C events).insertionSort fun x y => x.1 ≤ y.1).filter
        fun item => decide (item.1 ≤ start)) = some x ∧ x.1 ≤ start ∨ start < x.1 ∧ x.1 < stop) := by
  rcases List.mem_append.mp h with hx | hx
  · have hx := Option.mem_toList.mp hx
    obtain ⟨hsorted, hle⟩ := List.mem_filter.mp (firstLatest_mem hx)
    exact ⟨(List.mem_insertionSort _).mp hsorted, Or.inl ⟨hx, by simpa using hle⟩⟩
  · obtain ⟨hsorted, hbetween⟩ := List.mem_filter.mp hx
    exact ⟨(List.mem_insertionSort _).mp hsorted, Or.inr (by simpa using hbetween)⟩

theorem mem_boundaries_of {x : ℚ × Doc} (hx : x ∈ checkedEvents C events) (hstart : start < x.1)
    (hstop : x.1 < stop) : x ∈ boundaries C events start stop := by
  refine List.mem_append_right _ (List.mem_filter.mpr ⟨(List.mem_insertionSort _).mpr hx, ?_⟩)
  simp [hstart, hstop]

theorem sorted_checked (C : Clock) (events : List Doc) :
    Ordered ((checkedEvents C events).insertionSort fun x y => x.1 ≤ y.1) := by
  have htotal : Std.Total fun x y : ℚ × Doc => x.1 ≤ y.1 := ⟨fun x y => le_total x.1 y.1⟩
  have htrans : IsTrans (ℚ × Doc) fun x y => x.1 ≤ y.1 := ⟨fun x y z => le_trans⟩
  exact List.pairwise_insertionSort _ _

/-- The cut to the range keeps the order of the boundaries. -/
theorem boundaryItem_lt {x y : ℚ × Doc} (hx : x ∈ boundaries C events start stop)
    (hy : y ∈ boundaries C events start stop) :
    (boundaryItem start x).1 < (boundaryItem start y).1 ↔ x.1 < y.1 := by
  have hbefore := (mem_boundaries hx).2
  have hbefore' := (mem_boundaries hy).2
  show max start x.1 < max start y.1 ↔ x.1 < y.1
  rcases hbefore with ⟨hfx, hx⟩ | ⟨hx, -⟩ <;> rcases hbefore' with ⟨hfy, hy⟩ | ⟨hy, -⟩
  · -- only one boundary lies before the start
    obtain rfl := Option.some.inj (hfx.symm.trans hfy)
    simp
  · rw [max_eq_left hx, max_eq_right hy.le]
    exact iff_of_true hy (hx.trans_lt hy)
  · rw [max_eq_right hx.le, max_eq_left hy]
    exact iff_of_false (not_lt.mpr hx.le) (not_lt.mpr (hy.trans hx.le))
  · rw [max_eq_right hx.le, max_eq_right hy.le]

theorem ordered_items : Ordered (items C events start stop) := by
  have hsorted := sorted_checked C events
  refine List.pairwise_map.mpr (List.pairwise_append.mpr ⟨?_, ?_, ?_⟩)
  · cases firstLatest (((checkedEvents C events).insertionSort fun x y => x.1 ≤ y.1).filter
        fun item => decide (item.1 ≤ start)) with
    | none => exact .nil
    | some x => exact List.pairwise_singleton _ x
  · exact (hsorted.sublist List.filter_sublist).imp fun h => max_le_max_left start h
  · intro x hx y hy
    have hx := (List.mem_filter.mp (firstLatest_mem (Option.mem_toList.mp hx))).2
    have hy := (List.mem_filter.mp hy).2
    rw [Bool.and_eq_true, decide_eq_true_eq] at hy
    exact max_le_max_left start ((of_decide_eq_true hx).trans hy.1.le)

theorem items_lt_stop (h : start < stop) : ∀ x ∈ items C events start stop, x.1 < stop := by
  intro x hx
  obtain ⟨y, hy, rfl⟩ := List.mem_map.mp hx
  rcases (mem_boundaries hy).2 with ⟨-, hle⟩ | ⟨-, hlt⟩
  · exact max_lt h (hle.trans_lt h)
  · exact max_lt h hlt

/-- **The lookup and the boundaries**: within the range, what is in force among the boundaries is what
the lookup finds. -/
theorem inForce_items {t : ℚ} (hstart : start ≤ t) (hstop : t < stop) :
    (inForce (items C events start stop) t).map Prod.snd =
      (observedVersionAt C events t).map fun v => versionOf v.event := by
  have hsorted := sorted_checked C events
  -- sorting the events does not change which is the first of the latest
  have hsort : firstLatest (upTo t (checkedEvents C events)) =
      firstLatest (upTo t ((checkedEvents C events).insertionSort fun x y => x.1 ≤ y.1)) := by
    refine firstLatest_congr fun c => ?_
    unfold upTo
    rw [List.filter_comm, ← filter_insertionSort, List.filter_comm]
  -- and neither does dropping what lies before the first of the latest at the start
  have hdrop : firstLatest (upTo t ((checkedEvents C events).insertionSort fun x y => x.1 ≤ y.1)) =
      firstLatest (upTo t (boundaries C events start stop)) := by
    have hbefore : upTo t (firstLatest (((checkedEvents C events).insertionSort
        fun x y => x.1 ≤ y.1).filter fun item => decide (item.1 ≤ start))).toList =
        (firstLatest (((checkedEvents C events).insertionSort
          fun x y => x.1 ≤ y.1).filter fun item => decide (item.1 ≤ start))).toList := by
      refine List.filter_eq_self.mpr fun x hx => ?_
      have hx := (List.mem_filter.mp (firstLatest_mem (Option.mem_toList.mp hx))).2
      exact decide_eq_true ((of_decide_eq_true hx).trans hstart)
    have hsplit := hsorted.split start
    generalize hS : ((checkedEvents C events).insertionSort fun x y => x.1 ≤ y.1) = S at *
    have hbetween : upTo t (S.filter fun item => decide (start < item.1)) =
        upTo t (S.filter fun item => decide (start < item.1) && decide (item.1 < stop)) := by
      unfold upTo
      rw [List.filter_filter, List.filter_filter]
      refine List.filter_congr fun x _ => ?_
      by_cases hx : x.1 ≤ t
      · simp [hx, hx.trans_lt hstop]
      · simp [hx]
    have hfirst : upTo t (upTo start S) = upTo start S := by
      refine List.filter_eq_self.mpr fun x hx => ?_
      exact decide_eq_true ((mem_upTo.mp hx).2.trans hstart)
    unfold boundaries
    rw [hS]
    conv_lhs => rw [hsplit]
    unfold upTo at hbefore hbetween hfirst ⊢
    rw [List.filter_append, List.filter_append, hbefore, hfirst, hbetween, firstLatest_append]
  have hcut : upTo t (items C events start stop) =
      (upTo t (boundaries C events start stop)).map (boundaryItem start) := by
    unfold upTo items
    rw [List.filter_map]
    congr 1
    refine List.filter_congr fun x _ => ?_
    simp [boundaryItem, hstart]
  unfold inForce observedVersionAt
  dsimp only
  rw [hcut, firstLatest_map fun x hx y hy =>
    boundaryItem_lt (mem_upTo.mp hx).1 (mem_upTo.mp hy).1, ← hdrop, ← hsort, Option.map_map,
    Option.map_map]
  rfl

/-- Before the start nothing is in force among the boundaries. -/
theorem le_of_inForce {t : ℚ} {v : ℚ × Version}
    (h : inForce (items C events start stop) t = some v) : start ≤ t := by
  obtain ⟨hmem, hle⟩ := mem_upTo.mp (firstLatest_mem h)
  obtain ⟨x, -, rfl⟩ := List.mem_map.mp hmem
  exact (le_max_left start x.1).trans hle

theorem observedVersionAt_confidence {t : ℚ} {v : ObservedVersion}
    (h : observedVersionAt C events t = some v) :
    v.applicabilityConfidence = applicabilityConfidence v.event := by
  obtain ⟨item, -, rfl⟩ := Option.map_eq_some_iff.mp h
  rfl

/-- What is in force among the boundaries, for what the lookup finds. -/
theorem inForce_of_observed {t : ℚ} (hstart : start ≤ t) (hstop : t < stop) {v : ObservedVersion}
    (h : observedVersionAt C events t = some v) :
    ∃ w, inForce (items C events start stop) t = some w ∧ w.2 = versionOf v.event := by
  have hitems := @inForce_items C events _ _ _ hstart hstop
  rw [h] at hitems
  exact Option.map_eq_some_iff.mp hitems

/-- What the lookup finds, for what is in force among the boundaries. -/
theorem observed_of_inForce {t : ℚ} (hstop : t < stop) {w : ℚ × Version}
    (h : inForce (items C events start stop) t = some w) :
    ∃ v, observedVersionAt C events t = some v ∧ versionOf v.event = w.2 := by
  have hitems := @inForce_items C events _ _ _ (le_of_inForce h) hstop
  rw [h] at hitems
  exact Option.map_eq_some_iff.mp hitems.symm

/-- **Consistency of the history** is consistency of the boundaries. -/
theorem consistent_iff : Consistent C events start stop ↔
    Agreed versionKey (items C events start stop) ∧
      Steady versionKey versionLabel stop (items C events start stop) := by
  constructor
  · rintro ⟨hagreed, hsteady⟩
    refine ⟨fun x hx y hy htime => ?_, ?_⟩
    · obtain ⟨x, hxb, rfl⟩ := List.mem_map.mp hx
      obtain ⟨y, hyb, rfl⟩ := List.mem_map.mp hy
      have hlt := not_congr (boundaryItem_lt hxb hyb)
      have hgt := not_congr (boundaryItem_lt hyb hxb)
      have hsame : x.1 = y.1 := le_antisymm (not_lt.mp (hgt.mp htime.le.not_gt))
        (not_lt.mp (hlt.mp htime.ge.not_gt))
      obtain ⟨hxc, hbefore | ⟨hxs, hxe⟩⟩ := mem_boundaries hxb
      · obtain ⟨hyc, hbefore' | ⟨hys, -⟩⟩ := mem_boundaries hyb
        · obtain rfl := Option.some.inj (hbefore.1.symm.trans hbefore'.1)
          rfl
        · exact absurd (hsame ▸ hys) (not_lt.mpr hbefore.2)
      · exact hagreed x hxc y (mem_boundaries hyb).1 hxs hxe hsame
    · intro t t' htt' ht' v v' hv hv' hconst
      have hstart := le_of_inForce hv
      obtain ⟨u, hu, hue⟩ := observed_of_inForce (htt'.trans_lt ht') hv
      obtain ⟨u', hu', hue'⟩ := observed_of_inForce ht' hv'
      rw [← hue, ← hue']
      refine hsteady t t' hstart htt' ht' u u' hu hu' fun s w hts hst' hw => ?_
      obtain ⟨x, hx, hxe⟩ := inForce_of_observed (hstart.trans hts) (hst'.trans_lt ht') hw
      rw [← hxe, hue]
      exact hconst s x hts hst' hx
  · rintro ⟨hagreed, hsteady⟩
    refine ⟨fun x hx y hy hstart hstop htime => ?_, ?_⟩
    · have hxb := mem_boundaries_of hx hstart hstop
      have hyb := mem_boundaries_of hy (htime ▸ hstart) (htime ▸ hstop)
      refine hagreed _ (List.mem_map_of_mem hxb) _ (List.mem_map_of_mem hyb) ?_
      show max start x.1 = max start y.1
      rw [htime]
    · intro t t' hstart htt' ht' v v' hv hv' hconst
      obtain ⟨w, hw, hwe⟩ := inForce_of_observed hstart (htt'.trans_lt ht') hv
      obtain ⟨w', hw', hwe'⟩ := inForce_of_observed (hstart.trans htt') ht' hv'
      rw [← hwe, ← hwe']
      refine hsteady t t' htt' ht' w w' hw hw' fun s x hts hst' hx => ?_
      obtain ⟨u, hu, hue⟩ := observed_of_inForce (hst'.trans_lt ht') hx
      rw [← hue, hwe]
      exact hconst s u hts hst' hu

/-- The timeline starts at the later of the start and the first observation. -/
theorem first_joined (s : Segment)
    (h : (joined versionKey stop (items C events start stop)).head? = some s) :
    ∃ o ∈ checkedEvents C events, (∀ p ∈ checkedEvents C events, o.1 ≤ p.1) ∧
      s.start = max start o.1 := by
  have hhead := @head?_joined _ _ _ _ versionKey stop (items C events start stop)
  rw [h, Option.map_some] at hhead
  obtain ⟨x, hx, hxstart⟩ := Option.map_eq_some_iff.mp hhead.symm
  have hxmem := List.mem_of_head? hx
  obtain ⟨b, hb, rfl⟩ := List.mem_map.mp hxmem
  have hle : ∀ y ∈ items C events start stop, s.start ≤ y.1 := by
    intro y hy
    rw [← hxstart]
    have hordered := @ordered_items C events start stop
    obtain ⟨tail, htail⟩ : ∃ tail, items C events start stop = boundaryItem start b :: tail := by
      cases hitems : items C events start stop with
      | nil =>
        rw [hitems] at hx
        cases hx
      | cons z tail =>
        rw [hitems] at hx
        obtain rfl := Option.some.inj hx
        exact ⟨tail, rfl⟩
    rw [htail] at hordered hy
    rcases List.mem_cons.mp hy with rfl | hy
    · exact le_rfl
    · exact (List.pairwise_cons.mp hordered).1 y hy
  obtain ⟨hbc, hbefore⟩ := mem_boundaries hb
  have hsorted := sorted_checked C events
  have hmemS := fun p => List.mem_insertionSort (r := fun x y : ℚ × Doc => x.1 ≤ y.1)
    (l := checkedEvents C events) (x := p)
  cases hS : (checkedEvents C events).insertionSort fun x y => x.1 ≤ y.1 with
  | nil =>
    have hbS := (hmemS b).mpr hbc
    rw [hS] at hbS
    cases hbS
  | cons o S =>
    rw [hS] at hsorted
    have ho : o ∈ checkedEvents C events := (hmemS o).mp (hS ▸ List.mem_cons_self)
    have hleast : ∀ p ∈ checkedEvents C events, o.1 ≤ p.1 := by
      intro p hp
      have hp := (hmemS p).mpr hp
      rw [hS] at hp
      rcases List.mem_cons.mp hp with rfl | hp
      · exact le_rfl
      · exact (List.pairwise_cons.mp hsorted).1 p hp
    refine ⟨o, ho, hleast, le_antisymm ?_ ?_⟩
    · by_cases hos : o.1 ≤ start
      · -- something is in force at the start
        have hbeforeMem : o ∈ ((checkedEvents C events).insertionSort fun x y => x.1 ≤ y.1).filter
            fun item => decide (item.1 ≤ start) :=
          List.mem_filter.mpr ⟨(hmemS o).mpr ho, decide_eq_true hos⟩
        cases hfirst : firstLatest (((checkedEvents C events).insertionSort
            fun x y => x.1 ≤ y.1).filter fun item => decide (item.1 ≤ start)) with
        | none =>
          rw [firstLatest_eq_none.mp hfirst] at hbeforeMem
          cases hbeforeMem
        | some y =>
          have hy : y ∈ boundaries C events start stop :=
            List.mem_append_left _ (Option.mem_toList.mpr hfirst)
          have hys := (List.mem_filter.mp (firstLatest_mem hfirst)).2
          have hyle := hle _ (List.mem_map_of_mem hy)
          rw [boundaryItem, max_eq_left (of_decide_eq_true hys)] at hyle
          exact hyle.trans (le_max_left start o.1)
      · have hlt := not_le.mp hos
        have hstop : o.1 < stop := by
          rcases hbefore with ⟨-, hbs⟩ | ⟨-, hbs⟩
          · exact absurd ((hleast b hbc).trans hbs) hos
          · exact (hleast b hbc).trans_lt hbs
        exact hle _ (List.mem_map_of_mem (mem_boundaries_of ho hlt hstop))
    · rw [← hxstart]
      exact max_le_max_left start (hleast b hbc)

/-- **The timeline agrees with the lookup** exactly if the history is consistent. -/
theorem agrees_iff (h : start < stop) :
    Agrees C events start stop (joined versionKey stop (items C events start stop)) ↔
      Consistent C events start stop := by
  have hordered := @ordered_items C events start stop
  rw [consistent_iff, ← faithful_iff versionKey versionLabel hordered (items_lt_stop h)]
  constructor
  · intro hagrees
    refine ⟨hagrees.nonempty, fun t ht s hs hcontains => ?_⟩
    cases hv : inForce (items C events start stop) t with
    | none => exact absurd hcontains ((covered_iff hordered ht).mpr hv s hs)
    | some w =>
      have hstart := le_of_inForce hv
      obtain ⟨v, hv', hsha, hconfidence, hpath⟩ := hagrees.lookup t hstart ht s hs hcontains
      obtain ⟨w', hw', hwe⟩ := inForce_of_observed hstart ht hv'
      obtain rfl := Option.some.inj (hv.symm.trans hw')
      refine ⟨w, rfl, ?_, ?_⟩
      · rw [hwe, versionKey_versionOf, ← observedVersionAt_confidence hv', ← hconfidence, ← hsha]
        rfl
      · rw [hwe]
        exact hpath
  · rintro ⟨hnonempty, hsays⟩
    refine ⟨hnonempty, ?_, first_joined, getLast?_joined _, isChain_joined _, ?_, ?_⟩
    · rw [joined_eq]
      exact isChain_spans _ _
    · intro t hstart ht s hs hcontains
      obtain ⟨w, hw, hkey, hlabel⟩ := hsays t ht s hs hcontains
      obtain ⟨v, hv, hve⟩ := observed_of_inForce ht hw
      rw [← hve, versionKey_versionOf] at hkey
      rw [← hve] at hlabel
      obtain ⟨hsha, hconfidence⟩ := Prod.mk.inj hkey
      refine ⟨v, hv, hsha, ?_, hlabel⟩
      rw [observedVersionAt_confidence hv]
      exact hconfidence
    · intro t hstart ht
      have hitems := @inForce_items C events _ _ _ hstart ht
      rw [covered_iff hordered ht]
      constructor
      · intro hnone
        rw [hnone] at hitems
        exact Option.map_eq_none_iff.mp hitems.symm
      · intro hnone
        rw [hnone] at hitems
        exact Option.map_eq_none_iff.mp hitems

/-! ### The end of a date -/

theorem applicableCandidates_text (h : TextTimes events) :
    applicableCandidates C stop events =
      .ok ((checkedEvents C events).filter fun item => decide (item.1 < stop)) := by
  induction events with
  | nil => rfl
  | cons event events ih =>
    obtain ⟨hevent, hevents⟩ := List.forall_mem_cons.mp h
    have ih := ih hevents
    unfold applicableCandidates checkedEvents checkedTimestamp
    rw [List.filterMap_cons]
    cases hitem : event.item "checked_at" with
    | error e => exact ih
    | ok value =>
      obtain ⟨text, rfl⟩ := hevent value hitem
      simp only [Doc.asStr, C.textOf_str]
      cases htime : C.isoTimestamp text with
      | none => exact ih
      | some checked =>
        simp only [ih, Option.map_some, Except.map]
        by_cases hlt : checked < stop
        · rw [if_pos hlt, List.filter_cons_of_pos (by simpa using hlt)]
          rfl
        · rw [if_neg hlt, List.filter_cons_of_neg (by simpa using hlt)]
          rfl

theorem textTimes_of_candidates {candidates : List (ℚ × Doc)}
    (h : applicableCandidates C stop events = .ok candidates) : TextTimes events := by
  induction events generalizing candidates with
  | nil => exact fun event hevent => absurd hevent List.not_mem_nil
  | cons event events ih =>
    unfold applicableCandidates at h
    cases hitem : event.item "checked_at" with
    | error e =>
      rw [hitem] at h
      refine List.forall_mem_cons.mpr ⟨fun value hvalue => ?_, ih h⟩
      rw [hitem] at hvalue
      cases hvalue
    | ok value =>
      rw [hitem] at h
      dsimp only at h
      cases htext : value.asStr with
      | none =>
        rw [htext] at h
        cases h
      | some text =>
        rw [htext] at h
        dsimp only at h
        have hself : ∀ other, event.item "checked_at" = .ok other → ∃ text, other = .str text := by
          intro other hother
          obtain rfl := Except.ok.inj (hitem.symm.trans hother)
          exact ⟨text, Doc.asStr_eq_some.mp htext⟩
        cases htime : C.isoTimestamp text with
        | none =>
          rw [htime] at h
          exact List.forall_mem_cons.mpr ⟨hself, ih h⟩
        | some checked =>
          rw [htime] at h
          obtain ⟨rest, hrest, -⟩ := map_eq_ok.mp h
          exact List.forall_mem_cons.mpr ⟨hself, ih hrest⟩

/-- **The version at the end of a date** is the one of the last segment, unless a check has a time
that is no text. -/
theorem applicable_iff {day : ℚ}
    (hagrees : Agrees C events day (day + 86400)
      (joined versionKey (day + 86400) (items C events day (day + 86400)))) :
    Applicable C events day (joined versionKey (day + 86400) (items C events day (day + 86400))) ↔
      TextTimes events := by
  constructor
  · rintro ⟨event, hevent, -⟩
    obtain ⟨candidates, hcandidates, -⟩ := map_eq_ok.mp hevent
    exact textTimes_of_candidates hcandidates
  · intro htext
    have hresult : applicableVersion C events day = .ok ((firstLatest
        ((checkedEvents C events).filter fun item => decide (item.1 < day + 86400))).map Prod.snd) := by
      unfold applicableVersion
      rw [applicableCandidates_text htext]
      rfl
    refine ⟨_, hresult, ?_⟩
    cases hlatest : firstLatest
        ((checkedEvents C events).filter fun item => decide (item.1 < day + 86400)) with
    | none =>
      have hnil := firstLatest_eq_none.mp hlatest
      refine ⟨fun _ => rfl, fun s hs => ?_⟩
      obtain ⟨x, hx, -⟩ := List.mem_map.mp (mem_joined (List.mem_of_getLast? hs))
      obtain ⟨hxc, hbefore⟩ := mem_boundaries hx
      have hlt : x.1 < day + 86400 := by
        rcases hbefore with ⟨-, hle⟩ | ⟨-, hlt⟩
        · linarith
        · exact hlt
      exact absurd (decide_eq_true hlt) (List.filter_eq_nil_iff.mp hnil x hxc)
    | some m =>
      -- the last observation before the end is the one in force when it was made, or at the start
      have hle := (firstLatest_eq_some.mp hlatest).2
      obtain ⟨hm, hmstop⟩ := List.mem_filter.mp (firstLatest_mem hlatest)
      have hmstop : m.1 < day + 86400 := by simpa using hmstop
      have hrange : max day m.1 < day + 86400 := max_lt (by linarith) hmstop
      have hobserved : observedVersionAt C events (max day m.1) =
          some ⟨m.2, m.1, applicabilityConfidence m.2⟩ := by
        have hsame : ((checkedEvents C events).filter fun item => decide (item.1 ≤ max day m.1)) =
            (checkedEvents C events).filter fun item => decide (item.1 < day + 86400) := by
          refine List.filter_congr fun x hx => decide_eq_decide.mpr ⟨fun h => h.trans_lt hrange, ?_⟩
          intro hlt
          exact (hle x (List.mem_filter.mpr ⟨hx, decide_eq_true hlt⟩)).trans (le_max_right day m.1)
        unfold observedVersionAt
        dsimp only
        rw [hsame, hlatest]
        rfl
      refine ⟨fun hnil => ?_, fun s hs => ⟨m.2, rfl, ?_⟩⟩
      · have hnone := (hagrees.covers (max day m.1) (le_max_left day m.1) hrange).mp
          (by rw [hnil]; exact fun s hs => absurd hs List.not_mem_nil)
        rw [hobserved] at hnone
        cases hnone
      · have hsmem := List.mem_of_getLast? hs
        obtain ⟨x, hx, hxs⟩ := List.mem_map.mp (mem_joined hsmem)
        have hstart : s.start ≤ max day m.1 := by
          obtain ⟨hxc, hbefore⟩ := mem_boundaries hx
          have hxstart : s.start = max day x.1 := congrArg Prod.fst hxs.symm
          rw [hxstart]
          rcases hbefore with ⟨-, hle'⟩ | ⟨-, hlt⟩
          · rw [max_eq_left hle']
            exact le_max_left day m.1
          · exact max_le_max_left day (hle x (List.mem_filter.mpr ⟨hxc, decide_eq_true hlt⟩))
        obtain ⟨v, hv, hsha, -, -⟩ := hagrees.lookup (max day m.1) (le_max_left day m.1) hrange s
          hsmem ⟨hstart, by rw [hagrees.last s hs]; exact hrange⟩
        obtain rfl := Option.some.inj (hobserved.symm.trans hv)
        exact hsha.symm

end Boundaries

/-- **The static timeline and the lookup agree** exactly on consistent histories; the version at the
end of a date agrees with them exactly if no check has a time that is no text. -/
theorem timeline_iff (C : Clock) (events : List Doc) :
    (∀ start stop, start < stop →
      ((∃ timeline, observedTimeline C events start stop = .ok timeline ∧
        Agrees C events start stop timeline) ↔ Consistent C events start stop)) ∧
    ∀ day, (∃ timeline, observedTimeline C events day (day + 86400) = .ok timeline ∧
        Agrees C events day (day + 86400) timeline ∧ Applicable C events day timeline) ↔
      Consistent C events day (day + 86400) ∧ TextTimes events := by
  refine ⟨fun start stop h => ?_, fun day => ?_⟩
  · rw [observedTimeline_eq h, ← agrees_iff h]
    constructor
    · rintro ⟨timeline, htimeline, hagrees⟩
      obtain rfl := Except.ok.inj htimeline
      exact hagrees
    · exact fun hagrees => ⟨_, rfl, hagrees⟩
  · have h : day < day + 86400 := by linarith
    rw [observedTimeline_eq h, ← agrees_iff h]
    constructor
    · rintro ⟨timeline, htimeline, hagrees, happlicable⟩
      obtain rfl := Except.ok.inj htimeline
      exact ⟨hagrees, (applicable_iff hagrees).mp happlicable⟩
    · rintro ⟨hagrees, htext⟩
      exact ⟨_, rfl, hagrees, (applicable_iff hagrees).mpr htext⟩

/-! ### Two checks at one instant -/

/-- Noon and midnight. -/
def sampleClock : Clock where
  textOf
    | .str s => s
    | _ => ""
  textOf_str _ := rfl
  isoTimestamp text :=
    if text = "2026-08-20T12:00:00+00:00" then some 1787227200
    else if text = "2026-08-20T00:00:00+00:00" then some 1787184000
    else none

/-- A check of the sample. -/
def sampleEvent (checkedAt digest : String) : Doc :=
  .dict [("checked_at", .str checkedAt), ("sha256", .str digest), ("size", .int 1),
    ("version_path", .str ("versions/" ++ digest ++ ".zip"))]

/-- Two versions checked at noon. -/
def sampleTie : List Doc :=
  [sampleEvent "2026-08-20T12:00:00+00:00" "old", sampleEvent "2026-08-20T12:00:00+00:00" "new"]

/-- The ends and the hash of a segment. -/
def Segment.ends (s : Segment) : ℚ × ℚ × Doc := (s.start, s.stop, s.value.sha256)

theorem ends_sampleTie :
    (observedTimeline sampleClock sampleTie 1787184000 (1787184000 + 86400)).map
        (List.map Segment.ends) =
      .ok [(1787227200, 1787227200, .str "old"), (1787227200, 1787184000 + 86400, .str "new")] := by
  decide +kernel

/-- **The lookup takes the first of two checks at one instant, the timeline the last**, behind an empty
segment for the first; the version at the end of the date is the first again. -/
theorem not_timeline :
    (observedTimeline sampleClock sampleTie 1787184000 (1787184000 + 86400)).map
        (List.map Segment.ends) =
      .ok [(1787227200, 1787227200, .str "old"), (1787227200, 1787184000 + 86400, .str "new")] ∧
    (observedVersionAt sampleClock sampleTie 1787227200).map (fun v => field v.event "sha256") =
      some (.str "old") ∧
    (applicableVersion sampleClock sampleTie 1787184000).map
        (Option.map fun e => field e "sha256") = .ok (some (.str "old")) ∧
    ¬ ∃ timeline, observedTimeline sampleClock sampleTie 1787184000 (1787184000 + 86400) =
        .ok timeline ∧ Agrees sampleClock sampleTie 1787184000 (1787184000 + 86400) timeline := by
  refine ⟨ends_sampleTie, by decide +kernel, by decide +kernel, ?_⟩
  rintro ⟨timeline, htimeline, hagrees⟩
  have hends := ends_sampleTie
  rw [htimeline] at hends
  have hends := Except.ok.inj hends
  have hmem : ((1787227200, 1787227200, .str "old") : ℚ × ℚ × Doc) ∈ timeline.map Segment.ends :=
    hends ▸ List.mem_cons_self
  obtain ⟨s, hs, hsame⟩ := List.mem_map.mp hmem
  obtain ⟨hstart, hrest⟩ := Prod.mk.inj hsame
  obtain ⟨hstop, -⟩ := Prod.mk.inj hrest
  have hnonempty := hagrees.nonempty s hs
  rw [hstart, hstop] at hnonempty
  exact lt_irrefl _ hnonempty

/-- A day with one version from midnight on, and another from noon. -/
theorem timeline_iff_day :
    (1787184000 : ℚ) < 1787184000 + 86400 ∧
    ((∃ timeline, observedTimeline sampleClock
          [sampleEvent "2026-08-20T00:00:00+00:00" "old", sampleEvent "2026-08-20T12:00:00+00:00" "new"]
          1787184000 (1787184000 + 86400) = .ok timeline ∧
        Agrees sampleClock
          [sampleEvent "2026-08-20T00:00:00+00:00" "old", sampleEvent "2026-08-20T12:00:00+00:00" "new"]
          1787184000 (1787184000 + 86400) timeline) ↔
      Consistent sampleClock
        [sampleEvent "2026-08-20T00:00:00+00:00" "old", sampleEvent "2026-08-20T12:00:00+00:00" "new"]
        1787184000 (1787184000 + 86400)) :=
  ⟨by norm_num, (timeline_iff sampleClock _).1 _ _ (by norm_num)⟩

end BkkCollector.Archive.StaticTimeline
