import BkkCollector.Logic.Threads
import Mathlib.Algebra.BigOperators.Group.Finset.Piecewise
import Mathlib.Algebra.Order.BigOperators.Group.Finset

/-! # What programs hold

A program may take things from the shared state that it has to give back; `count` says how many are
out. `Holds count ops ok err n p`: `p` has taken `n` of them, and it has `ok` left when it returns
and `err` when it raises, in every run whose operations meet `ops`. The rules follow the
constructors of programs. `Accounted.reach`: where no operation is left out of `ops` and no process
is killed while something is out, the threads hold together what is out. -/

namespace BkkCollector.Logic.Holding

open BkkCollector.Logic.Program BkkCollector.Logic.Threads

variable {σ τ ω ω' χ ε α β ι π : Type}

/-- **What a program holds**: `n` now, `ok` when it returns and `err` when it raises. -/
def Holds (count : σ → ℕ) (ops : ω → (χ → σ → σ) → χ → σ → Prop) (ok err : ℕ) :
    ℕ → Prog σ ω χ ε α → Prop
  | n, .pure _ => n = ok
  | n, .throw _ => n = err
  | n, .act op eff next => ∀ c s, n ≤ count s → ops op eff c s →
      ∃ m, count (eff c s) + n = count s + m ∧ Holds count ops ok err m (next c s)

namespace Holds

variable {count : σ → ℕ} {ops : ω → (χ → σ → σ) → χ → σ → Prop} {ok err k n : ℕ}

/-- **Sequencing.** -/
theorem bind {p : Prog σ ω χ ε α} {f : α → Prog σ ω χ ε β} (h : Holds count ops k err n p)
    (hf : ∀ a, Holds count ops ok err k (f a)) : Holds count ops ok err n (p.bind f) := by
  induction p generalizing n with
  | pure a =>
    rw [show n = k from h]
    exact hf a
  | throw e => exact h
  | act op eff next ih =>
    intro c s hn hc
    obtain ⟨m, hm, hnext⟩ := h c s hn hc
    exact ⟨m, hm, ih c s hnext⟩

/-- **Exceptions.** -/
theorem tryCatch {p : Prog σ ω χ ε α} {f : ε → Prog σ ω χ ε α} (h : Holds count ops ok k n p)
    (hf : ∀ e, Holds count ops ok err k (f e)) : Holds count ops ok err n (p.tryCatch f) := by
  induction p generalizing n with
  | pure a => exact h
  | throw e =>
    rw [show n = k from h]
    exact hf e
  | act op eff next ih =>
    intro c s hn hc
    obtain ⟨m, hm, hnext⟩ := h c s hn hc
    exact ⟨m, hm, ih c s hnext⟩

/-- An exception handed over as a value. -/
theorem attempt {p : Prog σ ω χ ε α} (h : Holds count ops ok ok n p) :
    Holds count ops ok err n p.attempt := by
  have hreturn : Holds count ops ok ok n (p.bind fun a => .pure (Except.ok a : Except ε α)) :=
    h.bind fun a => rfl
  exact hreturn.tryCatch fun e => rfl

/-- A cleanup runs before the exception goes on. -/
theorem onError {p : Prog σ ω χ ε α} {cleanup : Prog σ ω χ ε Unit} (h : Holds count ops ok k n p)
    (hc : Holds count ops err err k cleanup) : Holds count ops ok err n (p.onError cleanup) :=
  h.tryCatch fun _ => hc.bind fun _ => rfl

/-- A program that takes and gives nothing. -/
theorem of_moves {p : Prog σ ω χ ε α} (h : p.Moves fun s t => count t = count s) :
    Holds count ops n n n p := by
  induction p with
  | pure a => exact rfl
  | throw e => exact rfl
  | act op eff next ih =>
    intro c s _ _
    obtain ⟨hcount, hnext⟩ := h c s
    exact ⟨n, by rw [hcount], ih c s hnext⟩

/-- Such a program holds what it ends with. -/
theorem eq_of_moves (hops : ∀ op eff, ∃ c s, n ≤ count s ∧ ops op eff c s)
    {p : Prog σ ω χ ε α} (h : Holds count ops ok ok n p)
    (hp : p.Moves fun s t => count t = count s) : n = ok := by
  induction p with
  | pure a => exact h
  | throw e => exact h
  | act op eff next ih =>
    obtain ⟨c, s, hn, hc⟩ := hops op eff
    obtain ⟨m, hm, hnext⟩ := h c s hn hc
    obtain ⟨hcount, hmoves⟩ := hp c s
    have hmn : m = n := by omega
    subst hmn
    exact ih c s hnext hmoves

/-- **A program on a component** that everything is taken from. -/
theorem zoom {get : τ → σ} {modify : (σ → σ) → τ → τ} {label : ω → ω'}
    {ops' : ω' → (χ → τ → τ) → χ → τ → Prop} (hget : ∀ f t, get (modify f t) = f (get t))
    (hops : ∀ op eff c t, ops' (label op) (fun c t => modify (eff c) t) c t → ops op eff c (get t))
    {p : Prog σ ω χ ε α} (h : Holds count ops ok err n p) :
    Holds (fun t => count (get t)) ops' ok err n (p.zoom get modify label) := by
  induction p generalizing n with
  | pure a => exact h
  | throw e => exact h
  | act op eff next ih =>
    intro c t hn hc
    obtain ⟨m, hm, hnext⟩ := h c (get t) hn (hops op eff c t hc)
    refine ⟨m, ?_, ih c (get t) hnext⟩
    show count (get (modify (eff c) t)) + n = count (get t) + m
    rw [hget]
    exact hm

end Holds

/-! ### Runs -/

variable [DecidableEq ι] [DecidableEq π] [Fintype ι]

/-- **The account of a system**: the threads hold together what is out, and an idle thread holds
nothing. -/
structure Accounted (count : σ → ℕ) (ops : ω → (χ → σ → σ) → χ → σ → Prop) (held : ι → ℕ)
    (s : Sys σ ω χ ε α ι) : Prop where
  total : ∑ i, held i = count s.state
  running : ∀ i p, s.running i = some p → Holds count ops 0 0 (held i) p
  idle : ∀ i, s.running i = none → held i = 0

/-- What a system has to meet: calls start with nothing, and neither their ends nor a kill change
what is out. -/
structure Balanced (r : Rules σ ω χ ε α ι π) (count : σ → ℕ)
    (ops : ω → (χ → σ → σ) → χ → σ → Prop) : Prop where
  starts : ∀ i s p, r.starts i s p → Holds count ops 0 0 0 p
  finish : ∀ i result s, count (r.finish i result s) = count s
  kill : ∀ q s, count (r.kill q s) = count s

variable {r : Rules σ ω χ ε α ι π} {count : σ → ℕ} {ops : ω → (χ → σ → σ) → χ → σ → Prop}
  {held : ι → ℕ} {s t : Sys σ ω χ ε α ι}

omit [DecidableEq π] in
/-- A thread that holds something else after a move. -/
theorem sum_update (held : ι → ℕ) (i : ι) (m : ℕ) :
    (∑ j, Function.update held i m j) + held i = (∑ j, held j) + m := by
  rw [Finset.sum_update_of_mem (Finset.mem_univ i), ← Finset.add_sum_erase _ held (Finset.mem_univ i),
    Finset.sdiff_singleton_eq_erase]
  omega

omit [DecidableEq π] in
/-- The account after one thread moved. -/
theorem Accounted.update (h : Accounted count ops held s) {i : ι} {u : σ} {m : ℕ}
    {q : Option (Prog σ ω χ ε α)} (hcount : count u + held i = count s.state + m)
    (hrunning : ∀ p, q = some p → Holds count ops 0 0 m p) (hidle : q = none → m = 0) :
    Accounted count ops (Function.update held i m) ⟨u, Function.update s.running i q⟩ where
  total := by
    have hsum := sum_update held i m
    have htotal := h.total
    show ∑ j, Function.update held i m j = count u
    omega
  running j p hp := by
    replace hp : Function.update s.running i q j = some p := hp
    by_cases hij : j = i
    · subst hij
      rw [Function.update_self] at hp ⊢
      exact hrunning p hp
    · rw [Function.update_of_ne hij] at hp ⊢
      exact h.running j p hp
  idle j hj := by
    replace hj : Function.update s.running i q j = none := hj
    by_cases hij : j = i
    · subst hij
      rw [Function.update_self] at hj ⊢
      exact hidle hj
    · rw [Function.update_of_ne hij] at hj ⊢
      exact h.idle j hj

omit [DecidableEq ι] [DecidableEq π] in
theorem Accounted.le (h : Accounted count ops held s) (i : ι) : held i ≤ count s.state := by
  rw [← h.total]
  exact Finset.single_le_sum (fun _ _ => Nat.zero_le _) (Finset.mem_univ i)

/-- One step, if no process is killed while something is out. -/
theorem Accounted.step (hr : Balanced r count ops) (h : Accounted count ops held s)
    (st : StepWhere r ops (fun _ u => count u = 0) s t) :
    ∃ held', Accounted count ops held' t := by
  cases st with
  | start i p idle ok =>
    have hzero := h.idle i idle
    refine ⟨_, h.update (m := 0) (by rw [hzero]) (fun p' hp' => ?_) fun _ => rfl⟩
    cases hp'
    exact hr.starts i _ p ok
  | op i c run ok meets =>
    obtain ⟨m, hm, hnext⟩ := h.running i _ run c s.state (h.le i) meets
    refine ⟨_, h.update hm (fun p' hp' => ?_) fun hnone => by cases hnone⟩
    cases hp'
    exact hnext
  | @returns i a run =>
    have hzero : held i = 0 := h.running i _ run
    exact ⟨_, h.update (m := 0) (by rw [hr.finish, hzero]) (fun p' hp' => by cases hp') fun _ => rfl⟩
  | @raises i e run =>
    have hzero : held i = 0 := h.running i _ run
    exact ⟨_, h.update (m := 0) (by rw [hr.finish, hzero]) (fun p' hp' => by cases hp') fun _ => rfl⟩
  | kill q meets =>
    refine ⟨held, ⟨by rw [hr.kill]; exact h.total, fun i p hp => ?_, fun i hi => ?_⟩⟩
    · by_cases hq : r.process i = q
      · simp [hq] at hp
      · exact h.running i p (by simpa [hq] using hp)
    · have hle := h.le i
      omega

/-- **Nothing gets lost.** -/
theorem Accounted.reach (hr : Balanced r count ops) {u : σ} (hu : count u = 0)
    (ht : ReachWhere r ops (fun _ u => count u = 0) (Sys.boot ι u) t) :
    ∃ held, Accounted count ops held t := by
  induction ht with
  | refl =>
    refine ⟨fun _ => 0, ⟨?_, nofun, fun _ _ => rfl⟩⟩
    rw [Finset.sum_const_zero]
    exact hu.symm
  | tail _ st ih =>
    obtain ⟨held, h⟩ := ih
    exact h.step hr st

end BkkCollector.Logic.Holding
