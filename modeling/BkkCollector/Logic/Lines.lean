import Mathlib.Data.List.Basic

/-! # Lines

A text is cut behind every separator: into complete lines, each with its separator, and what stands
behind the last one. Appending to a text leaves its complete lines as they are, and continues what
stands behind them; only a text that ends with a separator, or is empty, starts a new line.

* `split_sound`: the lines and the rest are the text.
* `split_append`: what appending does to the lines.
* `split_line`: a line appended at the start of a line is a line.
-/

namespace BkkCollector.Logic.Lines

variable {α : Type} [DecidableEq α] {sep : α}

/-- The complete lines of a text, and what stands behind the last separator. -/
def split (sep : α) : List α → List (List α) × List α
  | [] => ([], [])
  | a :: b =>
    if a = sep then ([a] :: (split sep b).1, (split sep b).2)
    else
      match split sep b with
      | ([], rest) => ([], a :: rest)
      | (l :: ls, rest) => ((a :: l) :: ls, rest)

/-- A line: a text without separator, and the separator. -/
def IsLine (sep : α) (l : List α) : Prop := ∃ p, sep ∉ p ∧ l = p ++ [sep]

/-- A text without separator has no complete line. -/
theorem split_of_not_mem {p : List α} (h : sep ∉ p) : split sep p = ([], p) := by
  induction p with
  | nil => rfl
  | cons a p ih =>
    rw [List.mem_cons, not_or] at h
    rw [split, if_neg (Ne.symm h.1), ih h.2]

/-- The first line of a text. -/
theorem split_cons {p : List α} (h : sep ∉ p) (b : List α) :
    split sep (p ++ sep :: b) = ((p ++ [sep]) :: (split sep b).1, (split sep b).2) := by
  induction p with
  | nil => rw [List.nil_append, split, if_pos rfl, List.nil_append]
  | cons a p ih =>
    rw [List.mem_cons, not_or] at h
    rw [List.cons_append, split, if_neg (Ne.symm h.1), ih h.2]
    rfl

theorem split_flatten {ls : List (List α)} (h : ∀ l ∈ ls, IsLine sep l) (b : List α) :
    split sep (ls.flatten ++ b) = (ls ++ (split sep b).1, (split sep b).2) := by
  induction ls with
  | nil => rfl
  | cons l ls ih =>
    obtain ⟨⟨p, hp, rfl⟩, hls⟩ := List.forall_mem_cons.mp h
    rw [List.flatten_cons, List.append_assoc, List.append_assoc, List.singleton_append,
      split_cons hp, ih hls, List.cons_append]

/-- **The lines of a text**, followed by the rest, are the text. -/
theorem split_sound (b : List α) : b = (split sep b).1.flatten ++ (split sep b).2 ∧
    (∀ l ∈ (split sep b).1, IsLine sep l) ∧ sep ∉ (split sep b).2 := by
  induction b with
  | nil => simp [split]
  | cons a b ih =>
    obtain ⟨h1, h2, h3⟩ := ih
    by_cases ha : a = sep
    · subst ha
      rw [split, if_pos rfl]
      refine ⟨?_, List.forall_mem_cons.mpr ⟨⟨[], List.not_mem_nil, rfl⟩, h2⟩, h3⟩
      rw [List.flatten_cons, List.append_assoc, ← h1]
      rfl
    · rw [split, if_neg ha]
      rcases hb : split sep b with ⟨_ | ⟨l, ls⟩, rest⟩
      · rw [hb] at h1 h3
        refine ⟨?_, fun l hl => absurd hl List.not_mem_nil, ?_⟩
        · conv_lhs => rw [h1]
          rfl
        · rw [List.mem_cons, not_or]
          exact ⟨Ne.symm ha, h3⟩
      · rw [hb] at h1 h2 h3
        obtain ⟨⟨p, hp, hl⟩, hls⟩ := List.forall_mem_cons.mp h2
        refine ⟨?_, List.forall_mem_cons.mpr ⟨⟨a :: p, ?_, ?_⟩, hls⟩, h3⟩
        · conv_lhs => rw [h1]
          rfl
        · rw [List.mem_cons, not_or]
          exact ⟨Ne.symm ha, hp⟩
        · rw [hl]
          rfl

/-- **Appending** leaves the complete lines and continues the rest. -/
theorem split_append (b c : List α) : split sep (b ++ c) =
    ((split sep b).1 ++ (split sep ((split sep b).2 ++ c)).1,
      (split sep ((split sep b).2 ++ c)).2) := by
  obtain ⟨h1, h2, -⟩ := @split_sound α _ sep b
  conv_lhs => rw [h1, List.append_assoc]
  exact split_flatten h2 _

theorem lines_prefix (b c : List α) : (split sep b).1 <+: (split sep (b ++ c)).1 := by
  rw [split_append]
  exact List.prefix_append _ _

/-- A text that is empty or ends with a separator: what is appended starts a line. -/
def AtLineStart (sep : α) (b : List α) : Prop := b = [] ∨ b.getLast? = some sep

instance (b : List α) : Decidable (AtLineStart sep b) := inferInstanceAs (Decidable (_ ∨ _))

theorem rest_of_atLineStart {b : List α} (h : AtLineStart sep b) : (split sep b).2 = [] := by
  rcases h with rfl | h
  · rfl
  · obtain ⟨h1, -, h3⟩ := @split_sound α _ sep b
    rcases List.eq_nil_or_concat (split sep b).2 with hnil | ⟨init, a, hconcat⟩
    · exact hnil
    · rw [List.concat_eq_append] at hconcat
      rw [h1, hconcat, ← List.append_assoc, List.getLast?_concat, Option.some.injEq] at h
      subst h
      exact absurd (hconcat ▸ List.mem_append_right _ List.mem_cons_self) h3

/-- The lines of a text that ends with a separator are all of it. -/
theorem flatten_of_atLineStart {b : List α} (h : AtLineStart sep b) :
    (split sep b).1.flatten = b := by
  have hsound := (@split_sound α _ sep b).1
  rw [rest_of_atLineStart h, List.append_nil] at hsound
  exact hsound.symm

/-- A text without separator behind others adds no line. -/
theorem lines_append_of_not_mem {b c : List α} (h : sep ∉ c) :
    (split sep (b ++ c)).1 = (split sep b).1 := by
  have hrest : sep ∉ (split sep b).2 ++ c := by
    rw [List.mem_append, not_or]
    exact ⟨(@split_sound α _ sep b).2.2, h⟩
  rw [split_append, split_of_not_mem hrest, List.append_nil]

/-- The last line of a text ends behind its last separator. -/
theorem length_lines_of_last {b p : List α} (h : sep ∉ p) :
    (split sep (b ++ sep :: p)).1.flatten.length = b.length + 1 := by
  have hsplit : b ++ sep :: p = (b ++ [sep]) ++ p := by simp
  have hstart : AtLineStart sep (b ++ [sep]) := Or.inr List.getLast?_concat
  rw [hsplit, lines_append_of_not_mem h, flatten_of_atLineStart hstart, List.length_append,
    List.length_singleton]

/-- **A line appended at the start of a line** is one more line. -/
theorem split_line {b p : List α} (h : AtLineStart sep b) (hp : sep ∉ p) :
    split sep (b ++ (p ++ [sep])) = ((split sep b).1 ++ [p ++ [sep]], []) := by
  rw [split_append, rest_of_atLineStart h, List.nil_append, split_cons hp]
  rfl

end BkkCollector.Logic.Lines
