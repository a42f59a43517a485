import Mathlib.Order.Lattice
import Mathlib.Data.List.Induction
import Mathlib.Order.Defs.LinearOrder

/-! # Since when a value has been the same

A value is observed again and again, each time with a time; two values can be the same without being
equal. An observer that keeps the last value and the time of the first observation in its unbroken
row knows for how long the value has been the same: `steadySince_iff`. -/

namespace BkkCollector.Logic.Steady

variable {α τ : Type}

/-! ### The observer -/

section Observer

variable (r : α → α → Prop) [DecidableRel r]

/-- What is kept after an observation: the value, and since when it has been the same. -/
def observe (kept : Option (α × τ)) (p : τ × α) : α × τ :=
  match kept with
  | some (a, since) => (p.2, if r a p.2 then since else p.1)
  | none => (p.2, p.1)

/-- What is kept after a list of observations. -/
def measure (l : List (τ × α)) : Option (α × τ) :=
  l.foldl (fun kept p => some (observe r kept p)) none

theorem measure_concat (l : List (τ × α)) (p : τ × α) :
    measure r (l ++ [p]) = some (observe r (measure r l) p) := by
  simp [measure]

theorem observe_fst (kept : Option (α × τ)) (p : τ × α) : (observe r kept p).1 = p.2 := by
  unfold observe
  split <;> rfl

theorem observe_snd (kept : Option (α × τ)) (p : τ × α) :
    (observe r kept p).2 = p.1 ∨ ∃ a, kept = some (a, (observe r kept p).2) := by
  unfold observe
  split
  · next a since =>
    by_cases h : r a p.2
    · exact Or.inr ⟨a, by rw [if_pos h]⟩
    · exact Or.inl (if_neg h)
  · exact Or.inl rfl

/-- The value has been the same since one of the observations. -/
theorem mem_of_measure {l : List (τ × α)} {a : α} {since : τ} (h : measure r l = some (a, since)) :
    ∃ p ∈ l, p.1 = since := by
  induction l using List.reverseRecOn generalizing a since with
  | nil => cases h
  | append_singleton l p ih =>
    rw [measure_concat, Option.some.injEq] at h
    have hsnd := observe_snd r (measure r l) p
    rw [h] at hsnd
    rcases hsnd with hp | ⟨b, hb⟩
    · exact ⟨p, by simp, hp.symm⟩
    · obtain ⟨q, hq, hsince⟩ := ih hb
      exact ⟨q, List.mem_append_left _ hq, hsince⟩

/-- The value kept is the last one. -/
theorem value_of_measure {l : List (τ × α)} {a : α} {since : τ}
    (h : measure r l = some (a, since)) : ∃ p ∈ l, p.2 = a := by
  induction l using List.reverseRecOn with
  | nil => cases h
  | append_singleton l p ih =>
    rw [measure_concat, Option.some.injEq] at h
    refine ⟨p, by simp, ?_⟩
    have hfst := congrArg Prod.fst h
    rwa [observe_fst] at hfst

end Observer

/-! ### Steady values -/

/-- From some observation at an `old` time on, every value was the same as `a`. -/
def SteadySince (r : α → α → Prop) (old : τ → Prop) (l : List (τ × α)) (a : α) : Prop :=
  ∃ before q between, l = before ++ q :: between ∧ old q.1 ∧ ∀ p ∈ q :: between, r p.2 a

variable {r : α → α → Prop} {old : τ → Prop} {l : List (τ × α)} {p : τ × α} {a : α}

theorem not_steadySince_nil : ¬ SteadySince r old [] a := by
  rintro ⟨before, q, between, h, -⟩
  exact List.append_ne_nil_of_right_ne_nil before (List.cons_ne_nil q between) h.symm

/-- With one more observation. -/
theorem steadySince_concat :
    SteadySince r old (l ++ [p]) a ↔ r p.2 a ∧ (old p.1 ∨ SteadySince r old l a) := by
  constructor
  · rintro ⟨before, q, between, h, hold, hall⟩
    rcases List.eq_nil_or_concat between with rfl | ⟨between, x, rfl⟩
    · obtain ⟨rfl, hp⟩ := List.append_inj' h rfl
      obtain rfl := List.singleton_inj.mp hp
      exact ⟨hall p List.mem_cons_self, Or.inl hold⟩
    · rw [List.concat_eq_append, ← List.cons_append, ← List.append_assoc] at h
      obtain ⟨rfl, hp⟩ := List.append_inj' h rfl
      obtain rfl := List.singleton_inj.mp hp
      refine ⟨hall p (by simp), Or.inr ⟨before, q, between, rfl, hold, fun x hx => hall x ?_⟩⟩
      rw [List.concat_eq_append, ← List.cons_append]
      exact List.mem_append_left _ hx
  · rintro ⟨hp, hold | ⟨before, q, between, rfl, hold, hall⟩⟩
    · refine ⟨l, p, [], rfl, hold, fun x hx => ?_⟩
      rw [List.mem_singleton.mp hx]
      exact hp
    · refine ⟨before, q, between ++ [p], by simp, hold, fun x hx => ?_⟩
      rw [← List.cons_append] at hx
      rcases List.mem_append.mp hx with hx | hx
      · exact hall x hx
      · rw [List.mem_singleton.mp hx]
        exact hp

/-- **The observer knows**: over observations in the order of their times, a value has been the same
since an old one exactly if it is the last value, and that has been the same since an old time. -/
theorem steadySince_iff [LinearOrder τ] [DecidableRel r] (hr : Equivalence r)
    (hold : ∀ x y, x ≤ y → old y → old x) (hsorted : (l.map Prod.fst).Pairwise (· ≤ ·)) :
    SteadySince r old l a ↔ ∃ b since, measure r l = some (b, since) ∧ r b a ∧ old since := by
  induction l using List.reverseRecOn with
  | nil => exact iff_of_false not_steadySince_nil fun ⟨_, _, h, _⟩ => by cases h
  | append_singleton l p ih =>
    rw [List.map_append, List.pairwise_append] at hsorted
    obtain ⟨hl, -, hlast⟩ := hsorted
    rw [steadySince_concat, ih hl, measure_concat]
    cases hm : measure r l with
    | none =>
      constructor
      · rintro ⟨hp, hnow | ⟨b, since, h, -⟩⟩
        · exact ⟨p.2, p.1, rfl, hp, hnow⟩
        · cases h
      · rintro ⟨_, _, ⟨⟩, hp, hnow⟩
        exact ⟨hp, Or.inl hnow⟩
    | some kept =>
      obtain ⟨b, since⟩ := kept
      obtain ⟨q, hq, hsince⟩ := mem_of_measure r hm
      have hle : since ≤ p.1 := by
        rw [← hsince]
        exact hlast q.1 (List.mem_map_of_mem hq) p.1 (by simp)
      by_cases hsame : r b p.2
      · -- the row goes on: an old time of this observation is one of its start
        have hobserve : observe r (some (b, since)) p = (p.2, since) := by
          rw [observe, if_pos hsame]
        rw [hobserve]
        constructor
        · rintro ⟨hp, hnow | ⟨_, _, ⟨⟩, -, hthen⟩⟩
          · exact ⟨p.2, since, rfl, hp, hold since p.1 hle hnow⟩
          · exact ⟨p.2, since, rfl, hp, hthen⟩
        · rintro ⟨_, _, ⟨⟩, hp, hthen⟩
          exact ⟨hp, Or.inr ⟨b, since, rfl, hr.trans hsame hp, hthen⟩⟩
      · have hobserve : observe r (some (b, since)) p = (p.2, p.1) := by
          rw [observe, if_neg hsame]
        rw [hobserve]
        constructor
        · rintro ⟨hp, hnow | ⟨_, _, ⟨⟩, hb, -⟩⟩
          · exact ⟨p.2, p.1, rfl, hp, hnow⟩
          · exact absurd (hr.trans hb (hr.symm hp)) hsame
        · rintro ⟨_, _, ⟨⟩, hp, hnow⟩
          exact ⟨hp, Or.inl hnow⟩

end BkkCollector.Logic.Steady
