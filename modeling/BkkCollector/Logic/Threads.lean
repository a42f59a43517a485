import BkkCollector.Logic.Program
import Mathlib.Logic.Relation
import Mathlib.Logic.Function.Basic

/-! # Threads, processes and kills

Threads run interruptible programs over one shared state, one operation at a time in any order. A
thread that is idle may start a program the rules allow in the present state; when its program ends,
the rules say what the end does to the state (a history variable, or memory of the process). Threads
belong to processes: a kill stops every thread of one process between two operations and wipes what
that process kept in memory.

`Sound.reach` is the parallel rule: if every program a thread may start meets the thread's contract
from the invariant, and what one thread guarantees is what the others rely on, then in every
reachable system the invariant holds and every running program still meets its contract. -/

namespace BkkCollector.Logic.Threads

open BkkCollector.Logic.Program

variable {σ ω χ ε α ι π : Type}

/-- The rules of a system: which programs a thread may start, which choices the environment makes,
what a finished program and a killed process do to the state. -/
structure Rules (σ ω χ ε α ι π : Type) where
  starts : ι → σ → Prog σ ω χ ε α → Prop
  admits : ι → ω → χ → σ → Prop
  finish : ι → Except ε α → σ → σ
  process : ι → π
  kill : π → σ → σ

/-- The shared state and what every thread is running. -/
structure Sys (σ ω χ ε α ι : Type) where
  state : σ
  running : ι → Option (Prog σ ω χ ε α)

/-- A system that has just been switched on. -/
def Sys.boot (ι : Type) (s : σ) : Sys σ ω χ ε α ι := ⟨s, fun _ => none⟩

variable [DecidableEq ι] [DecidableEq π]

/-- One step of one thread, or a kill of one process. -/
inductive Step (r : Rules σ ω χ ε α ι π) : Sys σ ω χ ε α ι → Sys σ ω χ ε α ι → Prop
  | start {s : Sys σ ω χ ε α ι} (i : ι) (p : Prog σ ω χ ε α) (idle : s.running i = none)
      (ok : r.starts i s.state p) : Step r s ⟨s.state, Function.update s.running i (some p)⟩
  | op {s : Sys σ ω χ ε α ι} (i : ι) (c : χ) {op : ω} {eff : χ → σ → σ}
      {next : χ → σ → Prog σ ω χ ε α} (run : s.running i = some (.act op eff next))
      (ok : r.admits i op c s.state) :
      Step r s ⟨eff c s.state, Function.update s.running i (some (next c s.state))⟩
  | returns {s : Sys σ ω χ ε α ι} (i : ι) {a : α} (run : s.running i = some (.pure a)) :
      Step r s ⟨r.finish i (.ok a) s.state, Function.update s.running i none⟩
  | raises {s : Sys σ ω χ ε α ι} (i : ι) {e : ε} (run : s.running i = some (.throw e)) :
      Step r s ⟨r.finish i (.error e) s.state, Function.update s.running i none⟩
  | kill {s : Sys σ ω χ ε α ι} (q : π) :
      Step r s ⟨r.kill q s.state, fun i => if r.process i = q then none else s.running i⟩

/-- The systems some run reaches. -/
def Reach (r : Rules σ ω χ ε α ι π) (s t : Sys σ ω χ ε α ι) : Prop :=
  Relation.ReflTransGen (Step r) s t

/-- What the parallel rule asks for: an invariant, a contract and postconditions for each thread. -/
structure Sound (r : Rules σ ω χ ε α ι π) (I : σ → Prop) (C : ι → Contract σ ω χ)
    (post : ι → α → σ → Prop) (exc : ι → ε → σ → Prop) : Prop where
  starts : ∀ i s p, I s → r.starts i s p → Ensures (C i) (post i) (exc i) p s
  admits : ∀ i op c s, I s → r.admits i op c s → (C i).admits op c s
  op_inv : ∀ i s t, I s → (C i).guarantee s t → I t
  op_rely : ∀ i j s t, I s → i ≠ j → (C i).guarantee s t → (C j).rely s t
  returns_inv : ∀ i a s, I s → post i a s → I (r.finish i (.ok a) s)
  returns_rely : ∀ i j a s, I s → i ≠ j → post i a s → (C j).rely s (r.finish i (.ok a) s)
  raises_inv : ∀ i e s, I s → exc i e s → I (r.finish i (.error e) s)
  raises_rely : ∀ i j e s, I s → i ≠ j → exc i e s → (C j).rely s (r.finish i (.error e) s)
  kill_inv : ∀ q s, I s → I (r.kill q s)
  kill_rely : ∀ q j s, I s → r.process j ≠ q → (C j).rely s (r.kill q s)

/-- What holds of a system in every run: the invariant, and what is left to run meets its
contract. -/
def Good (I : σ → Prop) (C : ι → Contract σ ω χ) (post : ι → α → σ → Prop)
    (exc : ι → ε → σ → Prop) (s : Sys σ ω χ ε α ι) : Prop :=
  I s.state ∧ ∀ i p, s.running i = some p → Ensures (C i) (post i) (exc i) p s.state

variable {r : Rules σ ω χ ε α ι π} {I : σ → Prop} {C : ι → Contract σ ω χ}
  {post : ι → α → σ → Prop} {exc : ι → ε → σ → Prop}

omit [DecidableEq ι] in
theorem good_boot {s : σ} (h : I s) : Good I C post exc (Sys.boot ι s) :=
  ⟨h, fun _ _ hp => by simp [Sys.boot] at hp⟩

/-- What the other threads know after thread `i` moved: their programs still meet their
contracts. -/
theorem good_update {s : Sys σ ω χ ε α ι} {t : σ} {i : ι} {q : Option (Prog σ ω χ ε α)}
    (h : Good I C post exc s) (hI : I t) (hr : ∀ j, i ≠ j → (C j).rely s.state t)
    (hq : ∀ p, q = some p → Ensures (C i) (post i) (exc i) p t) :
    Good I C post exc ⟨t, Function.update s.running i q⟩ := by
  refine ⟨hI, fun j p hp => ?_⟩
  by_cases hij : i = j
  · subst hij
    exact hq p (by simpa using hp)
  · have hp' : s.running j = some p := by simpa [Function.update_of_ne (Ne.symm hij)] using hp
    exact (h.2 j p hp').stable (hr j hij)

theorem good_step (hs : Sound r I C post exc) {s t : Sys σ ω χ ε α ι} (h : Good I C post exc s)
    (st : Step r s t) : Good I C post exc t := by
  cases st with
  | start i p idle ok =>
    refine good_update h h.1 (fun j _ => (C j).rely_refl _) fun p' hp' => ?_
    cases hp'
    exact hs.starts i _ p h.1 ok
  | @op i c op eff next run ok =>
    obtain ⟨hg, hn⟩ := h.2 i _ run s.state ((C i).rely_refl _) c (hs.admits i op c _ h.1 ok)
    refine good_update h (hs.op_inv i _ _ h.1 hg) (fun j hij => hs.op_rely i j _ _ h.1 hij hg) ?_
    intro p hp
    cases hp
    exact hn
  | @returns i a run =>
    have hp : post i a s.state := h.2 i _ run s.state ((C i).rely_refl _)
    exact good_update h (hs.returns_inv i a _ h.1 hp)
      (fun j hij => hs.returns_rely i j a _ h.1 hij hp) (by simp)
  | @raises i e run =>
    have hp : exc i e s.state := h.2 i _ run s.state ((C i).rely_refl _)
    exact good_update h (hs.raises_inv i e _ h.1 hp)
      (fun j hij => hs.raises_rely i j e _ h.1 hij hp) (by simp)
  | kill q =>
    refine ⟨hs.kill_inv q _ h.1, fun j p hp => ?_⟩
    by_cases hj : r.process j = q
    · simp [hj] at hp
    · exact (h.2 j p (by simpa [hj] using hp)).stable (hs.kill_rely q j _ h.1 hj)

/-- **The parallel rule.** -/
theorem Sound.reach (hs : Sound r I C post exc) {s : σ} (h : I s) {t : Sys σ ω χ ε α ι}
    (hr : Reach r (Sys.boot ι s) t) : Good I C post exc t := by
  induction hr with
  | refl => exact good_boot h
  | tail _ st ih => exact good_step hs ih st

omit [DecidableEq ι] in
/-- The postcondition of a call that has just returned. -/
theorem Good.returned {s : Sys σ ω χ ε α ι} (h : Good I C post exc s) {i : ι} {a : α}
    (hp : s.running i = some (.pure a)) : post i a s.state :=
  h.2 i _ hp _ ((C i).rely_refl _)

/-! ### Steps under a condition -/

/-- One step whose operation meets `ops`, or whose kill meets `kills`. -/
inductive StepWhere (r : Rules σ ω χ ε α ι π) (ops : ω → (χ → σ → σ) → χ → σ → Prop)
    (kills : π → σ → Prop) : Sys σ ω χ ε α ι → Sys σ ω χ ε α ι → Prop
  | start {s : Sys σ ω χ ε α ι} (i : ι) (p : Prog σ ω χ ε α) (idle : s.running i = none)
      (ok : r.starts i s.state p) :
      StepWhere r ops kills s ⟨s.state, Function.update s.running i (some p)⟩
  | op {s : Sys σ ω χ ε α ι} (i : ι) (c : χ) {op : ω} {eff : χ → σ → σ}
      {next : χ → σ → Prog σ ω χ ε α} (run : s.running i = some (.act op eff next))
      (ok : r.admits i op c s.state) (meets : ops op eff c s.state) :
      StepWhere r ops kills s
        ⟨eff c s.state, Function.update s.running i (some (next c s.state))⟩
  | returns {s : Sys σ ω χ ε α ι} (i : ι) {a : α} (run : s.running i = some (.pure a)) :
      StepWhere r ops kills s
        ⟨r.finish i (.ok a) s.state, Function.update s.running i none⟩
  | raises {s : Sys σ ω χ ε α ι} (i : ι) {e : ε} (run : s.running i = some (.throw e)) :
      StepWhere r ops kills s
        ⟨r.finish i (.error e) s.state, Function.update s.running i none⟩
  | kill {s : Sys σ ω χ ε α ι} (q : π) (meets : kills q s.state) :
      StepWhere r ops kills s
        ⟨r.kill q s.state, fun i => if r.process i = q then none else s.running i⟩

/-- The systems that runs under a condition reach. -/
def ReachWhere (r : Rules σ ω χ ε α ι π) (ops : ω → (χ → σ → σ) → χ → σ → Prop)
    (kills : π → σ → Prop) (s t : Sys σ ω χ ε α ι) : Prop :=
  Relation.ReflTransGen (StepWhere r ops kills) s t

section Where

variable {ops : ω → (χ → σ → σ) → χ → σ → Prop} {kills : π → σ → Prop}

theorem StepWhere.step {s t : Sys σ ω χ ε α ι} (h : StepWhere r ops kills s t) : Step r s t := by
  cases h with
  | start i p idle ok => exact Step.start i p idle ok
  | op i c run ok meets => exact Step.op i c run ok
  | returns i run => exact Step.returns i run
  | raises i run => exact Step.raises i run
  | kill q meets => exact Step.kill q

theorem Step.anywhere {s t : Sys σ ω χ ε α ι} (h : Step r s t) :
    StepWhere r (fun _ _ _ _ => True) (fun _ _ => True) s t := by
  cases h with
  | start i p idle ok => exact StepWhere.start i p idle ok
  | op i c run ok => exact StepWhere.op i c run ok trivial
  | returns i run => exact StepWhere.returns i run
  | raises i run => exact StepWhere.raises i run
  | kill q => exact StepWhere.kill q trivial

theorem ReachWhere.reach {s t : Sys σ ω χ ε α ι} (h : ReachWhere r ops kills s t) : Reach r s t :=
  Relation.ReflTransGen.mono (fun _ _ => StepWhere.step) s t h

theorem Reach.anywhere {s t : Sys σ ω χ ε α ι} (h : Reach r s t) :
    ReachWhere r (fun _ _ _ _ => True) (fun _ _ => True) s t :=
  Relation.ReflTransGen.mono (fun _ _ => Step.anywhere) s t h

/-! ### Runs of one thread -/

/-- **Some operations of one thread**, while the others do nothing. -/
theorem ReachWhere.after {s₀ : Sys σ ω χ ε α ι} {s : σ} {running : ι → Option (Prog σ ω χ ε α)}
    (h : ReachWhere r ops kills s₀ ⟨s, running⟩) (i : ι) (cs : List χ) {p : Prog σ ω χ ε α}
    (hp : running i = some p) (hadmits : Prog.Admitted (r.admits i) cs p s)
    (hops : ∀ c ∈ cs, ∀ op eff s, ops op eff c s) :
    ReachWhere r ops kills s₀
      ⟨(p.after cs s).2, Function.update running i (some (p.after cs s).1)⟩ := by
  induction cs generalizing p s running with
  | nil =>
    rw [Prog.after, ← hp, Function.update_eq_self]
    exact h
  | cons c cs ih =>
    cases p with
    | pure a =>
      rw [Prog.after, ← hp, Function.update_eq_self]
      exact h
    | throw e =>
      rw [Prog.after, ← hp, Function.update_eq_self]
      exact h
    | act op eff next =>
      have hmeets : ops op eff c s := hops c (List.mem_cons_self ..) op eff s
      have hstep := ih (h.tail (StepWhere.op i c hp hadmits.1 hmeets)) (Function.update_self ..)
        hadmits.2 fun c hc => hops c (List.mem_cons_of_mem _ hc)
      rw [Function.update_idem] at hstep
      exact hstep

/-- A program that runs alone, with one choice throughout, gets to its end. -/
theorem reachWhere_runWith {i : ι} {c : χ} (hadmits : ∀ op s, r.admits i op c s)
    (hops : ∀ op eff s, ops op eff c s) (p : Prog σ ω χ ε α) {s : σ}
    {running : ι → Option (Prog σ ω χ ε α)} (hp : running i = some p) :
    ReachWhere r ops kills ⟨s, running⟩
      ⟨r.finish i (p.runWith c s).1 (p.runWith c s).2, Function.update running i none⟩ := by
  induction p generalizing s running with
  | pure a => exact Relation.ReflTransGen.single (StepWhere.returns i hp)
  | throw e => exact Relation.ReflTransGen.single (StepWhere.raises i hp)
  | act op eff next ih =>
    have hstep : StepWhere r ops kills ⟨s, running⟩
        ⟨eff c s, Function.update running i (some (next c s))⟩ :=
      StepWhere.op i c hp (hadmits op s) (hops op eff s)
    have hrest := @ih c s (eff c s) (Function.update running i (some (next c s)))
      (Function.update_self ..)
    rw [Function.update_idem] at hrest
    exact Relation.ReflTransGen.head hstep hrest

/-- **A call that runs to its end** while the other threads do nothing. -/
theorem ReachWhere.call {s₀ : Sys σ ω χ ε α ι} {s : σ} {running : ι → Option (Prog σ ω χ ε α)}
    (h : ReachWhere r ops kills s₀ ⟨s, running⟩) (i : ι) (c : χ)
    (hadmits : ∀ op s, r.admits i op c s) (hops : ∀ op eff s, ops op eff c s)
    (idle : running i = none) {p : Prog σ ω χ ε α} (ok : r.starts i s p) :
    ReachWhere r ops kills s₀
      ⟨r.finish i (p.runWith c s).1 (p.runWith c s).2, running⟩ := by
  have hstart : ReachWhere r ops kills s₀ ⟨s, Function.update running i (some p)⟩ :=
    Relation.ReflTransGen.tail h (StepWhere.start i p idle ok)
  have hrun : ReachWhere r ops kills ⟨s, Function.update running i (some p)⟩ _ :=
    reachWhere_runWith hadmits hops p (Function.update_self i (some p) running)
  rw [Function.update_idem, ← idle, Function.update_eq_self] at hrun
  exact Relation.ReflTransGen.trans hstart hrun

end Where

/-- Some operations of one thread, under no condition. -/
theorem Reach.after {s₀ : Sys σ ω χ ε α ι} {s : σ} {running : ι → Option (Prog σ ω χ ε α)}
    (h : Reach r s₀ ⟨s, running⟩) (i : ι) (cs : List χ) {p : Prog σ ω χ ε α}
    (hp : running i = some p) (hadmits : Prog.Admitted (r.admits i) cs p s) :
    Reach r s₀ ⟨(p.after cs s).2, Function.update running i (some (p.after cs s).1)⟩ :=
  (h.anywhere.after i cs hp hadmits fun _ _ _ _ _ => trivial).reach

/-- A program that gets to its end, under no condition. -/
theorem reach_runWith {i : ι} {c : χ} (hadmits : ∀ op s, r.admits i op c s)
    (p : Prog σ ω χ ε α) {s : σ} {running : ι → Option (Prog σ ω χ ε α)}
    (hp : running i = some p) :
    Reach r ⟨s, running⟩
      ⟨r.finish i (p.runWith c s).1 (p.runWith c s).2, Function.update running i none⟩ := by
  have hrun : ReachWhere r (fun _ _ _ _ => True) (fun _ _ => True) ⟨s, running⟩ _ :=
    reachWhere_runWith hadmits (fun _ _ _ => trivial) p hp
  exact hrun.reach

/-- A call that runs to its end, under no condition. -/
theorem Reach.call {s₀ : Sys σ ω χ ε α ι} {s : σ} {running : ι → Option (Prog σ ω χ ε α)}
    (h : Reach r s₀ ⟨s, running⟩) (i : ι) (c : χ) (hadmits : ∀ op s, r.admits i op c s)
    (idle : running i = none) {p : Prog σ ω χ ε α} (ok : r.starts i s p) :
    Reach r s₀ ⟨r.finish i (p.runWith c s).1 (p.runWith c s).2, running⟩ :=
  (h.anywhere.call i c hadmits (fun _ _ _ => trivial) idle ok).reach

end BkkCollector.Logic.Threads
