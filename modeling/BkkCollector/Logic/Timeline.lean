import Mathlib.Data.List.Destutter
import Mathlib.Data.List.Sort

/-! # Timelines

What was in force at an instant, given dated items: `firstLatest` of the items up to it, the first of
the latest ones. A timeline says the same as a list of spans: the dated items in order, one span from
each to the next, and neighbours of the same key joined (`joined`, `joined_eq`).

`faithful_iff`: the spans are nonempty and say what is in force exactly if items of one instant have
one key (`Agreed`), and what is in force keeps its label as long as it keeps its key (`Steady`). -/

namespace BkkCollector.Logic.Timeline

variable {T α κ π : Type}

/-! ### Spans -/

/-- A value from an instant to another. -/
structure Span (T α : Type) where
  start : T
  stop : T
  value : α

/-- A span from each item to the next, and to the end. -/
def spans (stop : T) : List (T × α) → List (Span T α)
  | [] => []
  | (t, a) :: rest => ⟨t, (rest.head?.map Prod.fst).getD stop, a⟩ :: spans stop rest

/-- Another span joins the last one of the same key. -/
def extend [DecidableEq κ] (key : α → κ) (timeline : List (Span T α)) (span : Span T α) :
    List (Span T α) :=
  match timeline.getLast? with
  | some last =>
    if key last.value = key span.value then
      timeline.dropLast ++ [{ last with stop := span.stop }]
    else timeline ++ [span]
  | none => timeline ++ [span]

/-- The timeline. -/
def joined [DecidableEq κ] (key : α → κ) (stop : T) (l : List (T × α)) : List (Span T α) :=
  (spans stop l).foldl (extend key) []

/-- The keys differ. -/
abbrev Differ (key : α → κ) (x y : T × α) : Prop := key x.2 ≠ key y.2

theorem head?_destutter' (R : T × α → T × α → Prop) [DecidableRel R] (x : T × α)
    (l : List (T × α)) : (l.destutter' R x).head? = some x := by
  induction l with
  | nil => rfl
  | cons y l ih =>
    by_cases h : R x y
    · rw [List.destutter'_cons_pos _ h]
      rfl
    · rw [List.destutter'_cons_neg _ h, ih]

section Joined

variable [DecidableEq κ] {key : α → κ} {stop : T}

theorem extend_append (acc : List (Span T α)) (last span : Span T α) :
    extend key (acc ++ [last]) span =
      if key last.value = key span.value then acc ++ [{ last with stop := span.stop }]
      else acc ++ [last] ++ [span] := by
  simp [extend]

theorem foldl_extend (acc : List (Span T α)) (t : T) (a : α) (l : List (T × α)) :
    (spans stop l).foldl (extend key) (acc ++ [⟨t, (l.head?.map Prod.fst).getD stop, a⟩]) =
      acc ++ spans stop (l.destutter' (Differ key) (t, a)) := by
  induction l generalizing acc t a with
  | nil => rfl
  | cons y l ih =>
    obtain ⟨u, b⟩ := y
    simp only [spans, List.foldl_cons, List.head?_cons, Option.map_some, Option.getD_some]
    rw [extend_append]
    by_cases hkey : key a = key b
    · rw [if_pos hkey, ih, List.destutter'_cons_neg _ (by simpa using hkey)]
    · rw [if_neg hkey, ih, List.destutter'_cons_pos _ (by simpa using hkey), spans,
        head?_destutter', List.append_assoc]
      rfl

/-- **The timeline has a span for each item at which the key changes.** -/
theorem joined_eq (l : List (T × α)) : joined key stop l = spans stop (l.destutter (Differ key)) := by
  cases l with
  | nil => rfl
  | cons x l =>
    obtain ⟨t, a⟩ := x
    exact foldl_extend [] t a l

/-! ### The items at which the key changes -/

theorem key_destutter' (x : T × α) (l : List (T × α)) :
    ((l.destutter' (Differ key) x).getLast?.map fun y => key y.2) =
      (x :: l).getLast?.map fun y => key y.2 := by
  induction l generalizing x with
  | nil => rfl
  | cons y l ih =>
    by_cases h : key x.2 = key y.2
    · rw [List.destutter'_cons_neg _ (by simpa using h), ih]
      cases l with
      | nil => simp [h]
      | cons z l => simp [List.getLast?_cons_cons]
    · rw [List.destutter'_cons_pos _ h, List.getLast?_cons, List.getLast?_cons_cons, ← ih]
      cases hlast : (l.destutter' (Differ key) y).getLast? with
      | none => exact absurd (List.getLast?_eq_none_iff.mp hlast) (List.destutter'_ne_nil l _)
      | some z => rfl

/-- The last change has the key of the last item. -/
theorem key_destutter (l : List (T × α)) :
    ((l.destutter (Differ key)).getLast?.map fun y => key y.2) =
      l.getLast?.map fun y => key y.2 := by
  cases l with
  | nil => rfl
  | cons x l => exact key_destutter' x l

/-- The changes of a list behind another one: they go on from a change. -/
theorem destutter'_append (x : T × α) (l l' : List (T × α)) :
    ∃ c before, c ∈ x :: l ∧ before.Sublist (x :: l) ∧
      (l ++ l').destutter' (Differ key) x = before ++ l'.destutter' (Differ key) c := by
  induction l generalizing x with
  | nil => exact ⟨x, [], List.mem_cons_self, List.nil_sublist _, rfl⟩
  | cons y l ih =>
    by_cases hkey : key x.2 = key y.2
    · obtain ⟨c, before, hc, hsub, heq⟩ := ih x
      have hskip : (x :: l).Sublist (x :: y :: l) := (List.sublist_cons_self y l).cons_cons x
      refine ⟨c, before, hskip.subset hc, hsub.trans hskip, ?_⟩
      rw [List.cons_append, List.destutter'_cons_neg _ (by simpa using hkey), heq]
    · obtain ⟨c, before, hc, hsub, heq⟩ := ih y
      refine ⟨c, x :: before, List.mem_cons_of_mem x hc, hsub.cons_cons x, ?_⟩
      rw [List.cons_append, List.destutter'_cons_pos _ hkey, heq, List.cons_append]

/-- Neighbours of a timeline have different keys. -/
theorem isChain_joined (l : List (T × α)) :
    (joined key stop l).IsChain fun s u => key s.value ≠ key u.value := by
  rw [joined_eq]
  have hspans : ∀ l' : List (T × α), l'.IsChain (Differ key) →
      (spans stop l').IsChain fun s u => key s.value ≠ key u.value := by
    intro l' h
    induction l' with
    | nil => exact .nil
    | cons x l' ih =>
      cases l' with
      | nil => exact .singleton _
      | cons y l' => exact .cons_cons (List.isChain_cons_cons.mp h).1 (ih h.tail)
  exact hspans _ (List.isChain_destutter _ l)

theorem mem_spans {l : List (T × α)} {s : Span T α} (h : s ∈ spans stop l) :
    (s.start, s.value) ∈ l := by
  induction l with
  | nil => cases h
  | cons x l ih =>
    rcases List.mem_cons.mp h with rfl | h
    · exact List.mem_cons_self
    · exact List.mem_cons_of_mem x (ih h)

/-- The spans of a timeline start at items. -/
theorem mem_joined {l : List (T × α)} {s : Span T α} (h : s ∈ joined key stop l) :
    (s.start, s.value) ∈ l := by
  rw [joined_eq] at h
  exact (List.destutter_sublist _ _).subset (mem_spans h)

/-- A timeline starts with the first item. -/
theorem head?_joined (l : List (T × α)) :
    ((joined key stop l).head?.map fun s => s.start) = l.head?.map Prod.fst := by
  rw [joined_eq]
  cases l with
  | nil => rfl
  | cons x l =>
    have hhead := head?_destutter' (Differ key) x l
    rw [List.destutter_cons']
    cases hl : l.destutter' (Differ key) x with
    | nil =>
      rw [hl] at hhead
      cases hhead
    | cons y l' =>
      rw [hl] at hhead
      obtain rfl := Option.some.inj hhead
      rfl

/-- A timeline ends at the end. -/
theorem getLast?_joined (l : List (T × α)) : ∀ s, (joined key stop l).getLast? = some s → s.stop = stop := by
  rw [joined_eq]
  generalize l.destutter (Differ key) = l'
  induction l' with
  | nil => exact fun s hs => by cases hs
  | cons x l' ih =>
    intro s hs
    cases l' with
    | nil =>
      obtain rfl := Option.some.inj hs
      rfl
    | cons y l' =>
      rw [spans, spans, List.getLast?_cons_cons] at hs
      exact ih s hs

/-- Without a change there is none. -/
theorem destutter'_of_same {x : T × α} {l : List (T × α)} (h : ∀ y ∈ l, key y.2 = key x.2) :
    l.destutter' (Differ key) x = [x] := by
  induction l with
  | nil => rfl
  | cons y l ih =>
    obtain ⟨hy, hl⟩ := List.forall_mem_cons.mp h
    rw [List.destutter'_cons_neg _ (by simpa using hy.symm), ih hl]

end Joined

/-- The spans follow one another. -/
theorem isChain_spans (stop : T) (l : List (T × α)) :
    (spans stop l).IsChain fun s u => s.stop = u.start := by
  induction l with
  | nil => exact .nil
  | cons x l ih =>
    cases l with
    | nil => exact .singleton _
    | cons y l => exact .cons_cons rfl ih

section Items

variable [LinearOrder T]

/-! ### The latest item -/

/-- The first of the latest items: `max(items, key=..)`. -/
def firstLatest : List (T × α) → Option (T × α)
  | [] => none
  | x :: xs => some (xs.foldl (fun best y => if best.1 < y.1 then y else best) x)

/-- The items up to an instant. -/
def upTo (t : T) (l : List (T × α)) : List (T × α) := l.filter fun x => decide (x.1 ≤ t)

theorem mem_upTo {t : T} {l : List (T × α)} {x : T × α} : x ∈ upTo t l ↔ x ∈ l ∧ x.1 ≤ t := by
  simp [upTo]

theorem firstLatest_eq_none {l : List (T × α)} : firstLatest l = none ↔ l = [] := by
  cases l <;> simp [firstLatest]

theorem foldl_latest (xs : List (T × α)) (b : T × α) :
    let m := xs.foldl (fun best y => if best.1 < y.1 then y else best) b
    ((b :: xs).filter fun x => decide (x.1 = m.1)).head? = some m ∧ ∀ x ∈ b :: xs, x.1 ≤ m.1 := by
  induction xs generalizing b with
  | nil => simp
  | cons y xs ih =>
    dsimp only [List.foldl_cons]
    by_cases hlt : b.1 < y.1
    · rw [if_pos hlt]
      obtain ⟨hhead, hle⟩ := ih y
      have hb := lt_of_lt_of_le hlt (hle y List.mem_cons_self)
      refine ⟨?_, ?_⟩
      · rwa [List.filter_cons_of_neg (by simpa using hb.ne)]
      · exact List.forall_mem_cons.mpr ⟨hb.le, hle⟩
    · rw [if_neg hlt]
      obtain ⟨hhead, hle⟩ := ih b
      have hb := hle b List.mem_cons_self
      have hy := (not_lt.mp hlt).trans hb
      refine ⟨?_, ?_⟩
      · rcases hb.eq_or_lt with heq | hb
        · rw [List.filter_cons_of_pos (by simpa using heq)] at hhead ⊢
          exact hhead
        · have hy : y.1 < _ := lt_of_le_of_lt (not_lt.mp hlt) hb
          rw [List.filter_cons_of_neg (by simpa using hb.ne)] at hhead ⊢
          rwa [List.filter_cons_of_neg (by simpa using hy.ne)]
      · intro x hx
        rcases List.mem_cons.mp hx with rfl | hx
        · exact hb
        · rcases List.mem_cons.mp hx with rfl | hx
          · exact hy
          · exact hle x (List.mem_cons_of_mem _ hx)

/-- **The first of the latest**: no item is later, and it is the first one of its instant. -/
theorem firstLatest_eq_some {l : List (T × α)} {m : T × α} :
    firstLatest l = some m ↔
      (l.filter fun x => decide (x.1 = m.1)).head? = some m ∧ ∀ x ∈ l, x.1 ≤ m.1 := by
  have hspec : ∀ n, firstLatest l = some n →
      (l.filter fun x => decide (x.1 = n.1)).head? = some n ∧ ∀ x ∈ l, x.1 ≤ n.1 := by
    intro n hn
    cases l with
    | nil => cases hn
    | cons x xs =>
      obtain rfl := Option.some.inj hn
      exact foldl_latest xs x
  refine ⟨hspec m, fun ⟨hhead, hle⟩ => ?_⟩
  have hmem := List.mem_of_mem_filter (List.mem_of_head? hhead)
  cases hfirst : firstLatest l with
  | none =>
    rw [firstLatest_eq_none.mp hfirst] at hmem
    cases hmem
  | some n =>
    obtain ⟨hhead', hle'⟩ := hspec n hfirst
    have htime : m.1 = n.1 :=
      le_antisymm (hle' m hmem) (hle n (List.mem_of_mem_filter (List.mem_of_head? hhead')))
    rw [htime, hhead'] at hhead
    exact hhead

theorem firstLatest_mem {l : List (T × α)} {m : T × α} (h : firstLatest l = some m) : m ∈ l :=
  List.mem_of_mem_filter (List.mem_of_head? (firstLatest_eq_some.mp h).1)

/-- It depends only on the items of each instant, in their order. -/
theorem firstLatest_congr {l l' : List (T × α)}
    (h : ∀ c, (l.filter fun x => decide (x.1 = c)) = l'.filter fun x => decide (x.1 = c)) :
    firstLatest l = firstLatest l' := by
  have hmem : ∀ x, x ∈ l ↔ x ∈ l' := by
    intro x
    have hx := congrArg (x ∈ ·) (h x.1)
    simpa using hx
  refine Option.ext fun m => ?_
  rw [firstLatest_eq_some, firstLatest_eq_some, h]
  refine and_congr_right fun _ => forall_congr' fun x => ?_
  rw [hmem]

/-- The latest item of two lists is that of the second one behind the latest of the first. -/
theorem firstLatest_append (l l' : List (T × α)) :
    firstLatest (l ++ l') = firstLatest ((firstLatest l).toList ++ l') := by
  cases l with
  | nil => rfl
  | cons x l =>
    simp only [firstLatest, Option.toList_some, List.cons_append, List.nil_append, List.foldl_append]

/-- A function that keeps the order of the items. -/
theorem firstLatest_map {β : Type} {l : List (T × α)} {f : T × α → T × β}
    (h : ∀ x ∈ l, ∀ y ∈ l, (f x).1 < (f y).1 ↔ x.1 < y.1) :
    firstLatest (l.map f) = (firstLatest l).map f := by
  have hfold : ∀ (xs : List (T × α)) (b : T × α),
      (∀ x ∈ b :: xs, ∀ y ∈ b :: xs, (f x).1 < (f y).1 ↔ x.1 < y.1) →
      (xs.map f).foldl (fun best y => if best.1 < y.1 then y else best) (f b) =
        f (xs.foldl (fun best y => if best.1 < y.1 then y else best) b) := by
    intro xs
    induction xs with
    | nil => exact fun b _ => rfl
    | cons y xs ih =>
      intro b hb
      have hby := hb b List.mem_cons_self y (List.mem_cons_of_mem b List.mem_cons_self)
      simp only [List.map_cons, List.foldl_cons]
      by_cases hlt : b.1 < y.1
      · rw [if_pos hlt, if_pos (hby.mpr hlt)]
        exact ih y fun x hx z hz => hb x (List.mem_cons_of_mem b hx) z (List.mem_cons_of_mem b hz)
      · rw [if_neg hlt, if_neg fun h => hlt (hby.mp h)]
        have hsub : ∀ x ∈ b :: xs, x ∈ b :: y :: xs := fun x hx =>
          ((List.sublist_cons_self y xs).cons_cons b).subset hx
        exact ih b fun x hx z hz => hb x (hsub x hx) z (hsub z hz)
  cases l with
  | nil => rfl
  | cons x l => exact congrArg some (hfold l x h)

/-! ### Items in order -/

/-- The items are in the order of their instants. -/
def Ordered (l : List (T × α)) : Prop := l.Pairwise fun x y => x.1 ≤ y.1

/-- Up to an instant: the items before it, and those of it. -/
theorem Ordered.upTo_eq {l : List (T × α)} (h : Ordered l) (t : T) :
    upTo t l = (l.filter fun x => decide (x.1 < t)) ++ l.filter fun x => decide (x.1 = t) := by
  induction l with
  | nil => rfl
  | cons x l ih =>
    obtain ⟨hx, hl⟩ := List.pairwise_cons.mp h
    have ih := ih hl
    unfold upTo at ih ⊢
    rcases lt_trichotomy x.1 t with hlt | rfl | hgt
    · rw [List.filter_cons_of_pos (by simpa using hlt.le),
        List.filter_cons_of_pos (by simpa using hlt),
        List.filter_cons_of_neg (by simpa using hlt.ne), ih, List.cons_append]
    · have hnone : (l.filter fun y => decide (y.1 < x.1)) = [] := by
        simpa [List.filter_eq_nil_iff] using hx
      rw [List.filter_cons_of_pos (by simp), List.filter_cons_of_neg (by simp),
        List.filter_cons_of_pos (by simp), ih, hnone]
      rfl
    · rw [List.filter_cons_of_neg (by simpa using hgt),
        List.filter_cons_of_neg (by simpa using hgt.le),
        List.filter_cons_of_neg (by simpa using hgt.ne'), ih]

/-- Sorting by the instant keeps the order of the items of each instant. -/
theorem filter_insertionSort (l : List (T × α)) (c : T) :
    ((l.insertionSort fun x y => x.1 ≤ y.1).filter fun x => decide (x.1 = c)) =
      l.filter fun x => decide (x.1 = c) := by
  have htotal : Std.Total fun x y : T × α => x.1 ≤ y.1 := ⟨fun x y => le_total x.1 y.1⟩
  have htrans : IsTrans (T × α) fun x y => x.1 ≤ y.1 := ⟨fun x y z => le_trans⟩
  have hordered : (l.filter fun x => decide (x.1 = c)).Pairwise fun x y => x.1 ≤ y.1 := by
    refine List.pairwise_of_forall_mem_list fun x hx y hy => ?_
    simp only [List.mem_filter, decide_eq_true_eq] at hx hy
    rw [hx.2, hy.2]
  have hsub := (List.sublist_insertionSort hordered List.filter_sublist).filter
    fun x => decide (x.1 = c)
  rw [List.filter_filter] at hsub
  simp only [Bool.and_self] at hsub
  refine (hsub.eq_of_length ?_).symm
  exact ((List.perm_insertionSort _ l).filter _).length_eq.symm

/-! ### What is in force -/

/-- The span contains the instant. -/
def Span.Contains (s : Span T α) (t : T) : Prop := s.start ≤ t ∧ t < s.stop

/-- **The span that contains an instant** is the one of the last item up to it. -/
theorem spans_contains {l : List (T × α)} (hl : Ordered l) {stop t : T} (ht : t < stop) :
    (∀ s ∈ spans stop l, s.Contains t → (upTo t l).getLast? = some (s.start, s.value)) ∧
      ∀ x, (upTo t l).getLast? = some x →
        ∃ s ∈ spans stop l, s.Contains t ∧ (s.start, s.value) = x := by
  induction l with
  | nil => exact ⟨fun _ hs => absurd hs List.not_mem_nil, fun _ hx => by cases hx⟩
  | cons y l ih =>
    obtain ⟨u, a⟩ := y
    obtain ⟨hu, hl⟩ := List.pairwise_cons.mp hl
    obtain ⟨hforward, hback⟩ := ih hl
    -- with nothing of the rest up to `t`, the first span reaches beyond it
    have hnext : upTo t l = [] → t < (l.head?.map Prod.fst).getD stop := by
      intro hnone
      cases l with
      | nil => exact ht
      | cons z l =>
        have hz := List.filter_eq_nil_iff.mp hnone z List.mem_cons_self
        simpa using hz
    refine ⟨fun s hs hcontains => ?_, fun x hx => ?_⟩
    · rcases List.mem_cons.mp hs with rfl | hs
      · have hrest : upTo t l = [] := by
          refine List.filter_eq_nil_iff.mpr fun z hz => ?_
          obtain ⟨-, hlt⟩ := hcontains
          rw [decide_eq_true_eq, not_le]
          cases l with
          | nil => cases hz
          | cons w l =>
            rcases List.mem_cons.mp hz with rfl | hz
            · exact hlt
            · exact lt_of_lt_of_le hlt ((List.pairwise_cons.mp hl).1 z hz)
        have hself : upTo t ((u, a) :: l) = (u, a) :: upTo t l :=
          List.filter_cons_of_pos (by simpa using hcontains.1)
        rw [hself, hrest]
        rfl
      · have hlast := hforward s hs hcontains
        have hle : u ≤ t :=
          (hu _ (mem_upTo.mp (List.mem_of_getLast? hlast)).1).trans hcontains.1
        have hself : upTo t ((u, a) :: l) = (u, a) :: upTo t l :=
          List.filter_cons_of_pos (by simpa using hle)
        rw [hself, List.getLast?_cons, hlast]
        rfl
    · by_cases hle : u ≤ t
      · have hself : upTo t ((u, a) :: l) = (u, a) :: upTo t l :=
          List.filter_cons_of_pos (by simpa using hle)
        rw [hself, List.getLast?_cons] at hx
        cases hlast : (upTo t l).getLast? with
        | none =>
          rw [hlast] at hx
          obtain rfl := Option.some.inj hx
          refine ⟨_, List.mem_cons_self, ⟨hle, hnext ?_⟩, rfl⟩
          exact List.getLast?_eq_none_iff.mp hlast
        | some z =>
          rw [hlast] at hx
          obtain rfl := Option.some.inj hx
          obtain ⟨s, hs, hcontains, hsame⟩ := hback z hlast
          exact ⟨s, List.mem_cons_of_mem _ hs, hcontains, hsame⟩
      · have hself : upTo t ((u, a) :: l) = upTo t l :=
          List.filter_cons_of_neg (by simpa using hle)
        rw [hself] at hx
        obtain ⟨s, hs, hcontains, hsame⟩ := hback x hx
        exact ⟨s, List.mem_cons_of_mem _ hs, hcontains, hsame⟩

theorem spans_nonempty {l : List (T × α)} {stop : T} (hstop : ∀ x ∈ l, x.1 < stop) :
    (∀ s ∈ spans stop l, s.start < s.stop) ↔ l.Pairwise fun x y => x.1 < y.1 := by
  have htrans : IsTrans (T × α) fun x y => x.1 < y.1 := ⟨fun _ _ _ => lt_trans⟩
  rw [← List.isChain_iff_pairwise]
  induction l with
  | nil => simp [spans]
  | cons x l ih =>
    obtain ⟨hx, hstop⟩ := List.forall_mem_cons.mp hstop
    rw [spans, List.forall_mem_cons]
    refine (and_congr_right fun _ => ih hstop).trans ?_
    cases l with
    | nil => simpa using hx
    | cons y l => simp [List.isChain_cons_cons]

/-- What is in force at an instant. -/
def inForce (l : List (T × α)) (t : T) : Option (T × α) := firstLatest (upTo t l)

/-- Items of one instant have one key. -/
def Agreed (key : α → κ) (l : List (T × α)) : Prop :=
  ∀ x ∈ l, ∀ y ∈ l, x.1 = y.1 → key x.2 = key y.2

/-- What is in force keeps its label as long as it keeps its key. -/
def Steady (key : α → κ) (label : α → π) (stop : T) (l : List (T × α)) : Prop :=
  ∀ t t', t ≤ t' → t' < stop → ∀ v v', inForce l t = some v → inForce l t' = some v' →
    (∀ s w, t ≤ s → s ≤ t' → inForce l s = some w → key w.2 = key v.2) → label v'.2 = label v.2

/-- Changes at different instants, where items of one instant agree. -/
theorem strict_of_chain {key : α → κ} {l : List (T × α)} (hl : Ordered l) (hchain : l.IsChain (Differ key))
    (hagreed : Agreed key l) : l.Pairwise fun x y => x.1 < y.1 := by
  induction l with
  | nil => exact .nil
  | cons x l ih =>
    obtain ⟨hx, hl⟩ := List.pairwise_cons.mp hl
    have hrest := ih hl hchain.tail fun y hy z hz =>
      hagreed y (List.mem_cons_of_mem x hy) z (List.mem_cons_of_mem x hz)
    refine List.pairwise_cons.mpr ⟨fun z hz => ?_, hrest⟩
    cases l with
    | nil => cases hz
    | cons y l =>
      have hxy : x.1 < y.1 := by
        refine lt_of_le_of_ne (hx y List.mem_cons_self) fun heq => ?_
        exact (List.isChain_cons_cons.mp hchain).1
          (hagreed x List.mem_cons_self y (List.mem_cons_of_mem x List.mem_cons_self) heq)
      rcases List.mem_cons.mp hz with rfl | hz
      · exact hxy
      · exact hxy.trans_le ((List.pairwise_cons.mp hl).1 z hz)

/-! ### Changes up to an instant -/

section Changes

variable [DecidableEq κ] {key : α → κ}

/-- Nothing of an ordered list that starts later. -/
theorem upTo_eq_nil {t : T} {x : T × α} {l l' : List (T × α)} (hl : Ordered (x :: l))
    (hx : t < x.1) (hsub : l'.Sublist (x :: l)) : upTo t l' = [] := by
  refine List.filter_eq_nil_iff.mpr fun z hz => ?_
  rw [decide_eq_true_eq, not_le]
  rcases List.mem_cons.mp (hsub.subset hz) with rfl | hz
  · exact hx
  · exact lt_of_lt_of_le hx ((List.pairwise_cons.mp hl).1 z hz)

theorem upTo_destutter' {t : T} {x : T × α} {l : List (T × α)} (hl : Ordered (x :: l))
    (hx : x.1 ≤ t) :
    upTo t (l.destutter' (Differ key) x) = (upTo t l).destutter' (Differ key) x := by
  induction l generalizing x with
  | nil => exact List.filter_cons_of_pos (by simpa using hx)
  | cons y l ih =>
    obtain ⟨hxl, hyl⟩ := List.pairwise_cons.mp hl
    have hxrest : Ordered (x :: l) := hl.sublist ((List.sublist_cons_self y l).cons_cons x)
    by_cases hy : y.1 ≤ t
    · have hself : upTo t (y :: l) = y :: upTo t l := List.filter_cons_of_pos (by simpa using hy)
      rw [hself]
      by_cases hkey : key x.2 = key y.2
      · rw [List.destutter'_cons_neg _ (by simpa using hkey),
          List.destutter'_cons_neg _ (by simpa using hkey), ih hxrest hx]
      · rw [List.destutter'_cons_pos _ hkey, List.destutter'_cons_pos _ hkey, ← ih hyl hy]
        exact List.filter_cons_of_pos (by simpa using hx)
    · have hnone : ∀ l' : List (T × α), l'.Sublist (y :: l) → upTo t l' = [] :=
        fun l' => upTo_eq_nil hyl (not_le.mp hy)
      rw [hnone _ (List.Sublist.refl _), List.destutter'_nil]
      by_cases hkey : key x.2 = key y.2
      · rw [List.destutter'_cons_neg _ (by simpa using hkey), ih hxrest hx,
          hnone l (List.sublist_cons_self y l), List.destutter'_nil]
      · rw [List.destutter'_cons_pos _ hkey]
        have hrest := hnone _ (List.destutter'_sublist (R := Differ key) (l := l) y)
        unfold upTo at hrest ⊢
        rw [List.filter_cons_of_pos (by simpa using hx), hrest]

/-- **Up to an instant**, the changes are those of the items up to it. -/
theorem upTo_destutter {l : List (T × α)} (hl : Ordered l) (t : T) :
    upTo t (l.destutter (Differ key)) = (upTo t l).destutter (Differ key) := by
  cases l with
  | nil => rfl
  | cons x l =>
    by_cases hx : x.1 ≤ t
    · have hself : upTo t (x :: l) = x :: upTo t l := List.filter_cons_of_pos (by simpa using hx)
      rw [List.destutter_cons', upTo_destutter' hl hx, hself, List.destutter_cons']
    · rw [upTo_eq_nil hl (not_le.mp hx) (List.destutter_sublist _ _),
        upTo_eq_nil hl (not_le.mp hx) (List.Sublist.refl _)]
      rfl

/-- **The timeline says what is in force**: its spans are nonempty, and the one that contains an
instant has the key and the label of what is in force. -/
def Says (key : α → κ) (label : α → π) (stop : T) (l : List (T × α)) : Prop :=
  (∀ s ∈ joined key stop l, s.start < s.stop) ∧
    ∀ t, t < stop → ∀ s ∈ joined key stop l, s.Contains t →
      ∃ v, inForce l t = some v ∧ key s.value = key v.2 ∧ label s.value = label v.2

theorem Ordered.destutter {l : List (T × α)} (h : Ordered l) :
    Ordered (l.destutter (Differ key)) := h.sublist (List.destutter_sublist _ _)

/-- The last item of an ordered list is a latest one. -/
theorem Ordered.le_getLast {l : List (T × α)} (h : Ordered l) {x y : T × α} (hx : x ∈ l)
    (hy : l.getLast? = some y) : x.1 ≤ y.1 := by
  obtain ⟨init, rfl⟩ := List.getLast?_eq_some_iff.mp hy
  rcases List.mem_append.mp hx with hx | hx
  · exact (List.pairwise_append.mp h).2.2 x hx y (List.mem_singleton_self y)
  · rw [List.mem_singleton.mp hx]

theorem Ordered.upTo {l : List (T × α)} (h : Ordered l) (t : T) : Ordered (upTo t l) :=
  h.sublist List.filter_sublist

/-- The items of an instant are the last ones up to it; the first of them is in force. -/
theorem Ordered.inForce_eq {l : List (T × α)} (h : Ordered l) {t : T} {g : T × α}
    {rest : List (T × α)} (hgroup : (l.filter fun x => decide (x.1 = t)) = g :: rest) :
    inForce l t = some g := by
  have hg : g ∈ l.filter fun x => decide (x.1 = t) := hgroup ▸ List.mem_cons_self
  have htime : g.1 = t := by simpa using List.of_mem_filter hg
  refine firstLatest_eq_some.mpr ⟨?_, fun x hx => (mem_upTo.mp hx).2.trans htime.ge⟩
  rw [h.upTo_eq, List.filter_append, List.filter_filter, List.filter_filter, htime]
  have hnone : (l.filter fun x => decide (x.1 = t) && decide (x.1 < t)) = [] := by
    refine List.filter_eq_nil_iff.mpr fun x _ => ?_
    simp only [Bool.and_eq_true, decide_eq_true_eq, not_and]
    exact fun heq => heq.symm ▸ lt_irrefl t
  simp only [Bool.and_self, hnone, hgroup, List.nil_append, List.head?_cons]

theorem Agreed.strict {l : List (T × α)} (hl : Ordered l) (h : Agreed key l) :
    (l.destutter (Differ key)).Pairwise fun x y => x.1 < y.1 := by
  have hmem := (List.destutter_sublist (Differ key) l).subset
  exact strict_of_chain hl.destutter (List.isChain_destutter _ l)
    fun x hx y hy => h x (hmem hx) y (hmem hy)

/-- Items of the instant of a change, none of which is another change. -/
theorem same_of_strict {x : T × α} {l : List (T × α)} (hl : ∀ y ∈ l, y.1 = x.1)
    (hstrict : (l.destutter' (Differ key) x).Pairwise fun x y => x.1 < y.1) :
    ∀ y ∈ l, key y.2 = key x.2 := by
  induction l with
  | nil => exact fun y hy => absurd hy List.not_mem_nil
  | cons z l ih =>
    obtain ⟨hz, hl⟩ := List.forall_mem_cons.mp hl
    by_cases hkey : key x.2 = key z.2
    · rw [List.destutter'_cons_neg _ (by simpa using hkey)] at hstrict
      exact List.forall_mem_cons.mpr ⟨hkey.symm, ih hl hstrict⟩
    · rw [List.destutter'_cons_pos _ hkey] at hstrict
      have hlt := (List.pairwise_cons.mp hstrict).1 z (List.mem_destutter' _ _ z)
      exact absurd hz hlt.ne'

/-- Items of one instant with at most one change, which end with the key they start from. -/
theorem same_of_last {x : T × α} {l : List (T × α)} {t : T} (hl : ∀ y ∈ l, y.1 = t)
    (hstrict : (l.destutter' (Differ key) x).Pairwise fun x y => x.1 < y.1)
    (hlast : ∀ w, l.getLast? = some w → key w.2 = key x.2) : ∀ y ∈ l, key y.2 = key x.2 := by
  induction l with
  | nil => exact fun y hy => absurd hy List.not_mem_nil
  | cons z l ih =>
    obtain ⟨hz, hl⟩ := List.forall_mem_cons.mp hl
    by_cases hkey : key x.2 = key z.2
    · rw [List.destutter'_cons_neg _ (by simpa using hkey)] at hstrict
      refine List.forall_mem_cons.mpr ⟨hkey.symm, ih hl hstrict fun w hw => hlast w ?_⟩
      rw [List.getLast?_cons, hw]
      rfl
    · rw [List.destutter'_cons_pos _ hkey] at hstrict
      have hsame := same_of_strict (fun y hy => (hl y hy).trans hz.symm)
        (List.pairwise_cons.mp hstrict).2
      refine absurd ?_ hkey
      cases hw : l.getLast? with
      | none => exact (hlast z (by rw [List.getLast?_cons, hw]; rfl)).symm
      | some w =>
        rw [← hlast w (by rw [List.getLast?_cons, hw]; rfl)]
        exact hsame w (List.mem_of_getLast? hw)

/-- **Items of one instant agree** if there is at most one change at it, and the last one of them has
the key of the first. -/
theorem agreed_of_strict {l : List (T × α)} (hl : Ordered l)
    (hstrict : (l.destutter (Differ key)).Pairwise fun x y => x.1 < y.1)
    (hlast : ∀ t v w, inForce l t = some v → (upTo t l).getLast? = some w → key w.2 = key v.2) :
    Agreed key l := by
  have hgroup : ∀ t g rest, (l.filter fun x => decide (x.1 = t)) = g :: rest →
      ∀ y ∈ rest, key y.2 = key g.2 := by
    intro t g rest hgroup
    have htimes : ∀ y ∈ g :: rest, y.1 = t := by
      intro y hy
      rw [← hgroup] at hy
      simpa using List.of_mem_filter hy
    have hrest : ∀ y ∈ rest, y.1 = g.1 := fun y hy =>
      (htimes y (List.mem_cons_of_mem g hy)).trans (htimes g List.mem_cons_self).symm
    have hkeys : ∀ w, rest.getLast? = some w → key w.2 = key g.2 := by
      intro w hw
      refine hlast t g w (hl.inForce_eq hgroup) ?_
      rw [hl.upTo_eq, hgroup, List.getLast?_append, List.getLast?_cons, hw]
      rfl
    have hupTo : ((upTo t l).destutter (Differ key)).Pairwise fun x y => x.1 < y.1 := by
      rw [← upTo_destutter hl]
      exact hstrict.sublist List.filter_sublist
    rw [hl.upTo_eq, hgroup] at hupTo
    cases hbefore : l.filter fun x => decide (x.1 < t) with
    | nil =>
      rw [hbefore, List.nil_append, List.destutter_cons'] at hupTo
      exact same_of_strict hrest hupTo
    | cons p before =>
      rw [hbefore, List.cons_append, List.destutter_cons'] at hupTo
      obtain ⟨c, init, -, -, heq⟩ := @destutter'_append _ _ _ _ key p before (g :: rest)
      rw [heq] at hupTo
      have hupTo := (List.pairwise_append.mp hupTo).2.1
      by_cases hkey : key c.2 = key g.2
      · rw [List.destutter'_cons_neg _ (by simpa using hkey)] at hupTo
        rw [← hkey]
        exact same_of_last hrest hupTo fun w hw => (hkeys w hw).trans hkey.symm
      · rw [List.destutter'_cons_pos _ hkey] at hupTo
        exact same_of_strict hrest (List.pairwise_cons.mp hupTo).2
  intro x hx y hy htime
  have hxin : x ∈ l.filter fun z => decide (z.1 = x.1) := List.mem_filter.mpr ⟨hx, by simp⟩
  have hyin : y ∈ l.filter fun z => decide (z.1 = x.1) :=
    List.mem_filter.mpr ⟨hy, by simpa using htime.symm⟩
  cases hfilter : l.filter fun z => decide (z.1 = x.1) with
  | nil =>
    rw [hfilter] at hxin
    cases hxin
  | cons g rest =>
    rw [hfilter] at hxin hyin
    have hall : ∀ z ∈ g :: rest, key z.2 = key g.2 :=
      List.forall_mem_cons.mpr ⟨rfl, hgroup _ g rest hfilter⟩
    rw [hall x hxin, hall y hyin]

/-- A change is in force at its instant, where items of one instant agree. -/
theorem Agreed.inForce_change {l : List (T × α)} (hl : Ordered l) (h : Agreed key l) {d : T × α}
    (hd : d ∈ l.destutter (Differ key)) : inForce l d.1 = some d := by
  have hmem : d ∈ l.filter fun x => decide (x.1 = d.1) :=
    List.mem_filter.mpr ⟨(List.destutter_sublist _ _).subset hd, by simp⟩
  have hd : d ∈ (upTo d.1 l).destutter (Differ key) := by
    rw [← upTo_destutter hl]
    exact mem_upTo.mpr ⟨hd, le_rfl⟩
  cases hgroup : l.filter fun x => decide (x.1 = d.1) with
  | nil =>
    rw [hgroup] at hmem
    cases hmem
  | cons g rest =>
    rw [hl.inForce_eq hgroup]
    have htimes : ∀ y ∈ g :: rest, y ∈ l ∧ y.1 = d.1 := by
      intro y hy
      rw [← hgroup] at hy
      simpa using List.mem_filter.mp hy
    have hkeys : ∀ y ∈ rest, key y.2 = key g.2 := by
      intro y hy
      obtain ⟨hyl, hyt⟩ := htimes y (List.mem_cons_of_mem g hy)
      obtain ⟨hgl, hgt⟩ := htimes g List.mem_cons_self
      exact h y hyl g hgl (hyt.trans hgt.symm)
    rw [hl.upTo_eq, hgroup] at hd
    cases hbefore : l.filter fun x => decide (x.1 < d.1) with
    | nil =>
      rw [hbefore, List.nil_append, List.destutter_cons', destutter'_of_same hkeys] at hd
      rw [List.mem_singleton.mp hd]
    | cons p before =>
      have hlt : ∀ y ∈ p :: before, y.1 ≠ d.1 := by
        intro y hy heq
        rw [← hbefore] at hy
        exact absurd heq (by simpa using (List.of_mem_filter hy) : y.1 < d.1).ne
      rw [hbefore, List.cons_append, List.destutter_cons'] at hd
      obtain ⟨c, init, hc, hinit, heq⟩ := @destutter'_append _ _ _ _ key p before (g :: rest)
      rw [heq] at hd
      rcases List.mem_append.mp hd with hd | hd
      · exact absurd rfl (hlt d (hinit.subset hd))
      · by_cases hkey : key c.2 = key g.2
        · rw [List.destutter'_cons_neg _ (by simpa using hkey),
            destutter'_of_same fun y hy => (hkeys y hy).trans hkey.symm] at hd
          rw [← List.mem_singleton.mp hd] at hc
          exact absurd rfl (hlt d hc)
        · rw [List.destutter'_cons_pos _ hkey, destutter'_of_same hkeys] at hd
          rcases List.mem_cons.mp hd with rfl | hd
          · exact absurd rfl (hlt d hc)
          · rw [List.mem_singleton.mp hd]

/-- The last change has the key of what is in force. -/
theorem Agreed.key_change {l : List (T × α)} (hl : Ordered l) (h : Agreed key l) {t : T}
    {d v : T × α} (hd : (upTo t (l.destutter (Differ key))).getLast? = some d)
    (hv : inForce l t = some v) : key d.2 = key v.2 := by
  have hkey := @key_destutter _ _ _ _ key (upTo t l)
  rw [← upTo_destutter hl, hd] at hkey
  obtain ⟨w, hw, hwkey⟩ := Option.map_eq_some_iff.mp hkey.symm
  have hwl := List.mem_of_getLast? hw
  have hvl := firstLatest_mem hv
  have htime : w.1 = v.1 :=
    le_antisymm ((firstLatest_eq_some.mp hv).2 w hwl) ((hl.upTo t).le_getLast hvl hw)
  have hsame : key w.2 = key d.2 := hwkey
  rw [← hsame]
  exact h w (mem_upTo.mp hwl).1 v (mem_upTo.mp hvl).1 htime

/-- The last change stays the last one back to its instant. -/
theorem getLast_upTo {l : List (T × α)} (hl : Ordered l) {s t : T} {d : T × α}
    (hd : (upTo t l).getLast? = some d) (hds : d.1 ≤ s) (hst : s ≤ t) :
    (upTo s l).getLast? = some d := by
  have hsame : upTo s l = upTo t l := by
    refine List.filter_congr fun x hx => ?_
    rw [decide_eq_decide]
    refine ⟨fun hxs => hxs.trans hst, fun hxt => ?_⟩
    exact ((hl.upTo t).le_getLast (mem_upTo.mpr ⟨hx, hxt⟩) hd).trans hds
  rw [hsame, hd]

/-- An ordered list is what is up to an instant, and what is after it. -/
theorem Ordered.split {l : List (T × α)} (hl : Ordered l) (t : T) :
    l = Timeline.upTo t l ++ l.filter fun x => decide (t < x.1) := by
  induction l with
  | nil => rfl
  | cons x l ih =>
    by_cases hx : x.1 ≤ t
    · unfold Timeline.upTo at ih ⊢
      rw [List.filter_cons_of_pos (by simpa using hx),
        List.filter_cons_of_neg (by simpa using hx), List.cons_append,
        ← ih (List.pairwise_cons.mp hl).2]
    · have hlate : ∀ y ∈ x :: l, t < y.1 := by
        refine List.forall_mem_cons.mpr ⟨not_le.mp hx, fun y hy => ?_⟩
        exact (not_le.mp hx).trans_le ((List.pairwise_cons.mp hl).1 y hy)
      rw [upTo_eq_nil hl (not_le.mp hx) (List.Sublist.refl _), List.nil_append]
      exact (List.filter_eq_self.mpr fun y hy => by simpa using hlate y hy).symm

/-- An item of its own instant is the last one up to it. -/
theorem getLast_of_strict {l : List (T × α)} (hl : l.Pairwise fun x y => x.1 < y.1) {e : T × α}
    (he : e ∈ l) : (upTo e.1 l).getLast? = some e := by
  obtain ⟨before, after, rfl⟩ := List.append_of_mem he
  have hafter := (List.pairwise_cons.mp (List.pairwise_append.mp hl).2.1).1
  have hnil : upTo e.1 after = [] :=
    List.filter_eq_nil_iff.mpr fun x hx => by simpa using hafter x hx
  unfold upTo at hnil ⊢
  rw [List.filter_append, List.filter_cons_of_pos (by simp), hnil, List.getLast?_append]
  rfl

/-- Where something is in force, there is a change. -/
theorem exists_change {l : List (T × α)} (hl : Ordered l) {t : T} {v : T × α}
    (hv : inForce l t = some v) : ∃ d, (upTo t (l.destutter (Differ key))).getLast? = some d := by
  cases hlast : (upTo t (l.destutter (Differ key))).getLast? with
  | some d => exact ⟨d, rfl⟩
  | none =>
    rw [List.getLast?_eq_none_iff, upTo_destutter hl, List.destutter_eq_nil] at hlast
    rw [inForce, hlast] at hv
    cases hv

/-- **A timeline covers** the instants at which something is in force. -/
theorem covered_iff {l : List (T × α)} (hl : Ordered l) {stop t : T} (ht : t < stop) :
    (∀ s ∈ joined key stop l, ¬ s.Contains t) ↔ inForce l t = none := by
  rw [joined_eq]
  constructor
  · intro hnone
    cases hv : inForce l t with
    | none => rfl
    | some v =>
      obtain ⟨d, hd⟩ := @exists_change _ _ _ _ _ key _ hl _ _ hv
      obtain ⟨s, hs, hcontains, -⟩ := (spans_contains (@Ordered.destutter _ _ _ _ _ key _ hl) ht).2 d hd
      exact absurd hcontains (hnone s hs)
  · intro hnone s hs hcontains
    have hlast := (spans_contains (@Ordered.destutter _ _ _ _ _ key _ hl) ht).1 s hs hcontains
    rw [upTo_destutter hl, firstLatest_eq_none.mp hnone] at hlast
    cases hlast

/-- **A timeline is faithful** exactly if items of one instant agree and what is in force keeps its
label as long as its key. -/
theorem faithful_iff (key : α → κ) (label : α → π) {l : List (T × α)} (hl : Ordered l) {stop : T}
    (hstop : ∀ x ∈ l, x.1 < stop) :
    Says key label stop l ↔ Agreed key l ∧ Steady key label stop l := by
  have hsub := List.destutter_sublist (Differ key) l
  have hstops : ∀ x ∈ l.destutter (Differ key), x.1 < stop :=
    fun x hx => hstop x (hsub.subset hx)
  have hds : Ordered (l.destutter (Differ key)) := hl.destutter
  unfold Says
  rw [joined_eq, spans_nonempty hstops]
  constructor
  · rintro ⟨hstrict, hsays⟩
    -- what the spans say about the last change up to an instant
    have hchange : ∀ t, t < stop → ∀ d, (upTo t (l.destutter (Differ key))).getLast? = some d →
        ∃ v, inForce l t = some v ∧ key d.2 = key v.2 ∧ label d.2 = label v.2 := by
      intro t ht d hd
      obtain ⟨s, hs, hcontains, rfl⟩ := (spans_contains hds ht).2 d hd
      exact hsays t ht s hs hcontains
    refine ⟨agreed_of_strict hl hstrict fun t v w hv hw => ?_, ?_⟩
    · obtain ⟨d, hd⟩ := @exists_change _ _ _ _ _ key _ hl _ _ hv
      have hlt : v.1 < stop := hstop v (mem_upTo.mp (firstLatest_mem hv)).1
      have hkey := @key_destutter _ _ _ _ key (upTo t l)
      rw [← upTo_destutter hl, hd, hw] at hkey
      have hkey : key d.2 = key w.2 := Option.some.inj hkey
      have hwl := List.mem_of_getLast? hw
      have htime : w.1 = v.1 := le_antisymm ((firstLatest_eq_some.mp hv).2 w hwl)
        ((hl.upTo t).le_getLast (firstLatest_mem hv) hw)
      have hvt : v.1 ≤ t := (mem_upTo.mp (firstLatest_mem hv)).2
      have hupTo : upTo v.1 l = upTo t l := by
        refine List.filter_congr fun x hx => decide_eq_decide.mpr ⟨fun h => h.trans hvt, fun h => ?_⟩
        exact (firstLatest_eq_some.mp hv).2 x (mem_upTo.mpr ⟨hx, h⟩)
      have hd' : (upTo v.1 (l.destutter (Differ key))).getLast? = some d := by
        rw [upTo_destutter hl, hupTo, ← upTo_destutter hl, hd]
      obtain ⟨v', hv', hkey', -⟩ := hchange v.1 hlt d hd'
      rw [inForce, hupTo] at hv'
      obtain rfl := Option.some.inj (hv.symm.trans hv')
      rw [← hkey, hkey']
    · intro t t' htt' ht' v v' hv hv' hconst
      obtain ⟨d, hd⟩ := @exists_change _ _ _ _ _ key _ hl _ _ hv
      obtain ⟨d', hd'⟩ := @exists_change _ _ _ _ _ key _ hl _ _ hv'
      obtain ⟨u, hu, -, hlabel⟩ := hchange t (htt'.trans_lt ht') d hd
      obtain rfl := Option.some.inj (hv.symm.trans hu)
      obtain ⟨u', hu', -, hlabel'⟩ := hchange t' ht' d' hd'
      obtain rfl := Option.some.inj (hv'.symm.trans hu')
      -- the next change would have another key, which would be in force up to `t'`
      have hnone : ∀ e ∈ l.destutter (Differ key), t < e.1 → ¬ e.1 ≤ t' := by
        intro e he hte het'
        have hsplit := hds.split t
        cases hrest : (l.destutter (Differ key)).filter fun x => decide (t < x.1) with
        | nil =>
          have hmem : e ∈ (l.destutter (Differ key)).filter fun x => decide (t < x.1) :=
            List.mem_filter.mpr ⟨he, by simpa using hte⟩
          rw [hrest] at hmem
          cases hmem
        | cons c rest =>
          have hc : c ∈ (l.destutter (Differ key)).filter fun x => decide (t < x.1) :=
            hrest ▸ List.mem_cons_self
          obtain ⟨hcl, htc⟩ := List.mem_filter.mp hc
          have hce : c.1 ≤ e.1 := by
            have hmem : e ∈ c :: rest := by
              rw [← hrest]
              exact List.mem_filter.mpr ⟨he, by simpa using hte⟩
            have hordered : Ordered (c :: rest) := hrest ▸ hds.sublist List.filter_sublist
            rcases List.mem_cons.mp hmem with rfl | hmem
            · exact le_rfl
            · exact (List.pairwise_cons.mp hordered).1 e hmem
          have hct' : c.1 ≤ t' := hce.trans het'
          obtain ⟨w, hw, hkeyw, -⟩ := hchange c.1 (hct'.trans_lt ht') c (getLast_of_strict hstrict hcl)
          have hchain := List.isChain_destutter (Differ key) l
          rw [hsplit, hrest] at hchain
          have hdiffer := (List.isChain_append.mp hchain).2.2 d hd c rfl
          obtain ⟨u, hu, hkeyu, -⟩ := hchange t (htt'.trans_lt ht') d hd
          obtain rfl := Option.some.inj (hv.symm.trans hu)
          have htc : t ≤ c.1 := le_of_lt (by simpa using htc)
          exact hdiffer (by rw [hkeyu, hkeyw, hconst c.1 w htc hct' hw])
      have hsame : upTo t' (l.destutter (Differ key)) = upTo t (l.destutter (Differ key)) := by
        refine List.filter_congr fun x hx => decide_eq_decide.mpr ⟨fun h => ?_, fun h => h.trans htt'⟩
        exact not_lt.mp fun hlt => hnone x hx hlt h
      rw [hsame, hd] at hd'
      obtain rfl := Option.some.inj hd'
      rw [← hlabel, ← hlabel']
  · rintro ⟨hagreed, hsteady⟩
    refine ⟨hagreed.strict hl, fun t ht s hs hcontains => ?_⟩
    have hd := (spans_contains hds ht).1 s hs hcontains
    have hdl : (s.start, s.value) ∈ l.destutter (Differ key) :=
      (mem_upTo.mp (List.mem_of_getLast? hd)).1
    cases hv : inForce l t with
    | none =>
      have hnil := firstLatest_eq_none.mp hv
      have hmem := mem_upTo.mpr ⟨hsub.subset hdl, hcontains.1⟩
      rw [hnil] at hmem
      cases hmem
    | some v =>
      refine ⟨v, rfl, hagreed.key_change hl hd hv, ?_⟩
      have hstart := hagreed.inForce_change hl hdl
      refine (hsteady s.start t hcontains.1 ht _ v hstart hv fun u w hsu hut hw => ?_).symm
      exact (hagreed.key_change hl (getLast_upTo hds hd hsu hut) hw).symm

end Changes

end Items

end BkkCollector.Logic.Timeline
