import Mathlib.Data.List.TakeWhile

/-! # Searching and replacing

Literal replacement; and a backtracking matcher, for expressions that repeat single characters only
and have one group. The matches at a position stand in the order in which the matcher tries them; a
scan takes the first one at the first position that has one, and goes on behind it.

* `not_infix_append_replace`: what a literal replacement leaves.
* `exec_star_seq`: a repetition from which the matcher cannot backtrack.
* `scan_hit`, `scan_skip`: one step of a scan, and what it contributes to `groups` and `sub`.
-/

namespace BkkCollector.Logic.Regex

variable {α : Type}

/-- An expression over the characters `α`. -/
inductive Pattern (α : Type) where
  | char (p : α → Bool)
  | seq (r s : Pattern α)
  | alt (r s : Pattern α)
  | opt (r : Pattern α)
  | star (p : α → Bool)
  | group (r : Pattern α)
  | start
  | stop
  | ahead (r : Pattern α)

/-- A position in a text: whether the text starts here, what follows, and what the group matched. -/
structure Cursor (α : Type) where
  atStart : Bool
  rest : List α
  captured : List α := []

/-- The ends of the repetitions of a class, the longest one first. -/
def runs (p : α → Bool) (captured : List α) : Bool → List α → List (Cursor α)
  | b, [] => [⟨b, [], captured⟩]
  | b, a :: l =>
    if p a then runs p captured false l ++ [⟨b, a :: l, captured⟩] else [⟨b, a :: l, captured⟩]

/-- The ends of the matches at a position, in the order in which they are tried. -/
def exec : Pattern α → Cursor α → List (Cursor α)
  | .char p, c =>
    match c.rest with
    | [] => []
    | a :: l => if p a then [⟨false, l, c.captured⟩] else []
  | .seq r s, c => (exec r c).flatMap (exec s)
  | .alt r s, c => exec r c ++ exec s c
  | .opt r, c => exec r c ++ [c]
  | .star p, c => runs p c.captured c.atStart c.rest
  | .group r, c =>
    (exec r c).map fun d => { d with captured := c.rest.take (c.rest.length - d.rest.length) }
  | .start, c => if c.atStart then [c] else []
  | .stop, c => if c.rest.isEmpty then [c] else []
  | .ahead r, c => if (exec r c).isEmpty then [] else [c]

/-- A piece of a scanned text: a character outside the matches, or a match with its group. -/
inductive Piece (α : Type) where
  | skipped (a : α)
  | hit (captured : List α)

/-- The pieces of a text. An empty match is one, and the scan goes on behind the next character. -/
def scan (r : Pattern α) (atStart : Bool) (text : List α) : List (Piece α) :=
  match (exec r ⟨atStart, text, []⟩).head? with
  | some d =>
    if d.rest.length < text.length then .hit d.captured :: scan r d.atStart d.rest
    else
      match text with
      | [] => [.hit d.captured]
      | a :: l => .hit d.captured :: .skipped a :: scan r false l
  | none =>
    match text with
    | [] => []
    | a :: l => .skipped a :: scan r false l
termination_by text.length

/-- The group of a match. -/
def Piece.captured? : Piece α → Option (List α)
  | .skipped _ => none
  | .hit captured => some captured

/-- The groups of the matches in a text, or in what follows a position. -/
def groups (r : Pattern α) (text : List α) (atStart : Bool := true) : List (List α) :=
  (scan r atStart text).filterMap Piece.captured?

/-- A piece, with a replacement for a match. -/
def Piece.replaced (replacement : List α → List α) : Piece α → List α
  | .skipped a => [a]
  | .hit captured => replacement captured

/-- The text with a replacement, made of the group, for every match. -/
def sub (r : Pattern α) (replacement : List α → List α) (text : List α) (atStart : Bool := true) :
    List α :=
  (scan r atStart text).flatMap (Piece.replaced replacement)

/-! ### Matching -/

section Matching

variable {r s : Pattern α} {p : α → Bool} {b : Bool} {l : List α} {captured : List α}

@[simp] theorem exec_char_nil : exec (.char p) ⟨b, [], captured⟩ = [] := rfl

@[simp] theorem exec_char_cons (a : α) :
    exec (.char p) ⟨b, a :: l, captured⟩ = if p a then [⟨false, l, captured⟩] else [] := rfl

@[simp] theorem exec_seq (c : Cursor α) : exec (.seq r s) c = (exec r c).flatMap (exec s) := rfl

@[simp] theorem exec_alt (c : Cursor α) : exec (.alt r s) c = exec r c ++ exec s c := rfl

@[simp] theorem exec_opt (c : Cursor α) : exec (.opt r) c = exec r c ++ [c] := rfl

@[simp] theorem exec_start (c : Cursor α) : exec .start c = if c.atStart then [c] else [] := rfl

@[simp] theorem exec_stop (c : Cursor α) : exec .stop c = if c.rest.isEmpty then [c] else [] := rfl

@[simp] theorem exec_ahead (c : Cursor α) :
    exec (.ahead r) c = if (exec r c).isEmpty then [] else [c] := rfl

theorem exec_char_seq_nil : exec (.seq (.char p) s) ⟨b, [], captured⟩ = [] := rfl

/-- A character, and what follows it. -/
theorem exec_char_seq_cons (a : α) : exec (.seq (.char p) s) ⟨b, a :: l, captured⟩ =
    if p a then exec s ⟨false, l, captured⟩ else [] := by
  rw [exec_seq, exec_char_cons]
  split_ifs
  · exact List.flatMap_singleton _ _
  · rfl

theorem exec_group (c : Cursor α) : exec (.group r) c =
    (exec r c).map fun d =>
      { d with captured := c.rest.take (c.rest.length - d.rest.length) } := rfl

/-- A repetition that is followed by something that does not start with a repeated character goes
to the end of the run. -/
theorem exec_star_seq (hs : ∀ b a l, p a → exec s ⟨b, a :: l, captured⟩ = []) {l₁ l₂ : List α}
    (h₁ : ∀ a ∈ l₁, p a) (h₂ : ∀ a ∈ l₂.head?, p a = false) :
    exec (.seq (.star p) s) ⟨b, l₁ ++ l₂, captured⟩ = exec s ⟨b && l₁.isEmpty, l₂, captured⟩ := by
  show (runs p captured b (l₁ ++ l₂)).flatMap (exec s) = _
  induction l₁ generalizing b with
  | nil =>
    rw [List.nil_append, List.isEmpty_nil, Bool.and_true]
    cases l₂ with
    | nil => simp [runs]
    | cons a l => simp [runs, h₂ a rfl]
  | cons a l₁ ih =>
    obtain ⟨ha, hl⟩ := List.forall_mem_cons.mp h₁
    rw [List.cons_append, runs, if_pos ha, List.flatMap_append, ih hl, List.flatMap_singleton,
      hs b a _ ha, List.append_nil, Bool.false_and, List.isEmpty_cons, Bool.and_false]

/-- The first repetition is the longest one. -/
theorem head?_runs {l₁ l₂ : List α} (h₁ : ∀ a ∈ l₁, p a) (h₂ : ∀ a ∈ l₂.head?, p a = false) :
    (runs p captured b (l₁ ++ l₂)).head? = some ⟨b && l₁.isEmpty, l₂, captured⟩ := by
  induction l₁ generalizing b with
  | nil =>
    rw [List.nil_append, List.isEmpty_nil, Bool.and_true]
    cases l₂ with
    | nil => rfl
    | cons a l => rw [runs, if_neg (by simp [h₂ a rfl]), List.head?_cons]
  | cons a l₁ ih =>
    obtain ⟨ha, hl⟩ := List.forall_mem_cons.mp h₁
    rw [List.cons_append, runs, if_pos ha, List.head?_append, ih hl, Option.some_or,
      Bool.false_and, List.isEmpty_cons, Bool.and_false]

end Matching

/-! ### Scanning -/

section Scanning

variable {r : Pattern α} {b : Bool} {text : List α} {replacement : List α → List α}

/-- A position without a match is skipped. -/
theorem scan_skip {a : α} (h : exec r ⟨b, a :: text, []⟩ = []) :
    scan r b (a :: text) = .skipped a :: scan r false text := by
  rw [scan.eq_def, h]
  rfl

theorem scan_nil (h : exec r ⟨b, [], []⟩ = []) : scan r b [] = [] := by
  rw [scan.eq_def, h]
  rfl

/-- Whether the text starts here matters to the first match only. -/
theorem scan_congr {b' : Bool} (h : exec r ⟨b, text, []⟩ = exec r ⟨b', text, []⟩) :
    scan r b text = scan r b' text := by
  rw [scan.eq_def, h, ← scan.eq_def]

/-- Behind a match the scan goes on. -/
theorem scan_hit {d : Cursor α} (h : (exec r ⟨b, text, []⟩).head? = some d)
    (hlt : d.rest.length < text.length) :
    scan r b text = .hit d.captured :: scan r d.atStart d.rest := by
  rw [scan.eq_def, h]
  simp only [if_pos hlt]

theorem groups_skip {a : α} (h : exec r ⟨b, a :: text, []⟩ = []) :
    groups r (a :: text) b = groups r text false := by
  rw [groups, scan_skip h]
  rfl

theorem groups_nil (h : exec r ⟨b, [], []⟩ = []) : groups r [] b = [] := by
  rw [groups, scan_nil h]
  rfl

theorem groups_congr {b' : Bool} (h : exec r ⟨b, text, []⟩ = exec r ⟨b', text, []⟩) :
    groups r text b = groups r text b' := by
  rw [groups, scan_congr h, groups]

theorem groups_hit {d : Cursor α} (h : (exec r ⟨b, text, []⟩).head? = some d)
    (hlt : d.rest.length < text.length) :
    groups r text b = d.captured :: groups r d.rest d.atStart := by
  rw [groups, scan_hit h hlt]
  rfl

theorem sub_skip {a : α} (h : exec r ⟨b, a :: text, []⟩ = []) :
    sub r replacement (a :: text) b = a :: sub r replacement text false := by
  rw [sub, scan_skip h]
  rfl

theorem sub_nil (h : exec r ⟨b, [], []⟩ = []) : sub r replacement [] b = [] := by
  rw [sub, scan_nil h]
  rfl

theorem sub_hit {d : Cursor α} (h : (exec r ⟨b, text, []⟩).head? = some d)
    (hlt : d.rest.length < text.length) :
    sub r replacement text b = replacement d.captured ++ sub r replacement d.rest d.atStart := by
  rw [sub, scan_hit h hlt]
  rfl

end Scanning

/-! ### Literal replacement -/

/-- A text without a separator is found on one side of it. -/
theorem infix_of_separated {k l r : List α} {a : α} (ha : a ∉ k) (h : k <:+: l ++ a :: r) :
    k <:+: l ∨ k <:+: r := by
  obtain ⟨s, t, h⟩ := h
  rw [List.append_assoc] at h
  rcases List.append_eq_append_iff.mp h with ⟨c, hl, hr⟩ | ⟨c, hs, hr⟩
  · -- the occurrence starts on the left
    left
    rcases List.append_eq_append_iff.mp hr with ⟨d, rfl, -⟩ | ⟨d, rfl, hd⟩
    · exact ⟨s, d, by rw [hl, List.append_assoc]⟩
    · cases d with
      | nil => exact ⟨s, [], by rw [hl, List.append_nil, List.append_nil]⟩
      | cons b d =>
        rw [List.cons_append, List.cons.injEq] at hd
        exact absurd (List.mem_append_right _ (hd.1 ▸ List.mem_cons_self)) ha
  · cases c with
    | nil =>
      cases k with
      | nil => exact Or.inl (List.nil_infix)
      | cons b k =>
        rw [List.nil_append, List.cons_append, List.cons.injEq] at hr
        exact absurd (hr.1 ▸ List.mem_cons_self) ha
    | cons b c =>
      rw [List.cons_append, List.cons.injEq] at hr
      exact Or.inr ⟨c, t, by rw [hr.2, List.append_assoc]⟩

section Replacement

variable [DecidableEq α] {old new : List α}

/-- The text with `new` for every occurrence of a nonempty `old`, from the left and without
overlaps. -/
def replace (old new : List α) : List α → List α
  | [] => []
  | a :: l =>
    if old.isPrefixOf (a :: l) then new ++ replace old new (l.drop (old.length - 1))
    else a :: replace old new l
termination_by l => l.length
decreasing_by all_goals simp only [List.length_drop, List.length_cons]; omega

theorem replace_of_mismatch {a : α} {l : List α} (h : ¬ old <+: a :: l) :
    replace old new (a :: l) = a :: replace old new l := by
  rw [replace, if_neg (by rwa [List.isPrefixOf_iff_prefix])]

theorem replace_of_prefix {l : List α} (hold : old ≠ []) :
    replace old new (old ++ l) = new ++ replace old new l := by
  cases old with
  | nil => exact absurd rfl hold
  | cons a old =>
    rw [List.cons_append, replace, if_pos]
    · simp
    · rw [List.isPrefixOf_iff_prefix, ← List.cons_append]
      exact List.prefix_append _ _

/-- A text without `old` stays. -/
theorem replace_of_not_infix {l : List α} (h : ¬ old <:+: l) : replace old new l = l := by
  induction l with
  | nil => rw [replace]
  | cons a l ih =>
    rw [replace_of_mismatch fun hp => h hp.isInfix, ih fun hi => h (hi.trans ?_)]
    exact (List.suffix_cons a l).isInfix

/-- **No occurrence is left**, where `old` does not occur across the ends of a `new`: behind a text
in which no occurrence starts. -/
theorem not_infix_append_replace (hold : old ≠ [])
    (hnew : ∀ l r, old <:+: l ++ new ++ r → old <:+: l ∨ old <:+: r) (l text : List α)
    (hl : ∀ l₁ l₂, l = l₁ ++ l₂ → l₂ ≠ [] → ¬ old <+: l₂ ++ text) :
    ¬ old <:+: l ++ replace old new text := by
  have hleft : ∀ {l r : List α}, (∀ l₁ l₂, l = l₁ ++ l₂ → l₂ ≠ [] → ¬ old <+: l₂ ++ r) →
      ¬ old <:+: l := by
    rintro l r h ⟨l₁, l₂, rfl⟩
    refine h l₁ (old ++ l₂) (List.append_assoc _ _ _) (by simp [hold]) ?_
    rw [List.append_assoc]
    exact List.prefix_append _ _
  induction h : text.length using Nat.strong_induction_on generalizing l text with
  | _ n ih =>
    subst h
    cases text with
    | nil =>
      rw [replace, List.append_nil]
      exact hleft hl
    | cons a text =>
      by_cases hp : old <+: a :: text
      · obtain ⟨rest, hrest⟩ := hp
        rw [← hrest, replace_of_prefix hold, ← List.append_assoc]
        intro hi
        rcases hnew _ _ hi with hi | hi
        · exact hleft hl hi
        · refine ih rest.length ?_ [] rest (fun l₁ l₂ h hne => ?_) rfl hi
          · rw [← hrest, List.length_append]
            exact Nat.lt_add_of_pos_left (List.length_pos_iff.mpr hold)
          · exact absurd (List.append_eq_nil_iff.mp h.symm).2 hne
      · rw [replace_of_mismatch hp, List.append_cons]
        refine ih text.length (by simp) (l ++ [a]) text (fun l₁ l₂ h hne => ?_) rfl
        rcases List.eq_nil_or_concat l₂ with rfl | ⟨l₂, c, rfl⟩
        · exact absurd rfl hne
        · rw [List.concat_eq_append, ← List.append_assoc] at h
          obtain ⟨rfl, hc⟩ := List.append_inj' h rfl
          cases hc
          rw [List.concat_eq_append, List.append_assoc]
          by_cases hl₂ : l₂ = []
          · subst hl₂
            exact hp
          · exact hl l₁ l₂ rfl hl₂

end Replacement

end BkkCollector.Logic.Regex
