import Mathlib.Logic.Function.Basic

/-! # Interruptible programs

A program over a shared state `σ` is a tree of single operations. Every operation carries a label
`ω`, changes the state as a function of the choice `χ` its environment makes (does the operation
fail, how many bytes reach the disk), and continues as a function of that choice and of the state
it saw. A kill is a run that stops at some node, so the states a kill can leave behind are exactly
the states between two operations.

`Ensures C post exc p s` is the weakest precondition of `p` under a contract `C`: between two
operations the state moves by `C.rely`, every admitted operation moves it by `C.guarantee`, and
where `p` ends the result satisfies `post` (or `exc`, if it raises). The rules below follow the
constructors: `Ensures.act` for one operation, `Ensures.bind` and `Ensures.tryCatch` for the two
ways of composing programs, `Ensures.zoom` for a program that works on one component. -/

namespace BkkCollector.Logic.Program

/-- A program that returns an `α` or raises an `ε`. -/
inductive Prog (σ ω χ ε α : Type) where
  | pure (a : α)
  | throw (e : ε)
  | act (op : ω) (eff : χ → σ → σ) (next : χ → σ → Prog σ ω χ ε α)

variable {σ τ ω ω' χ ε α β : Type}

namespace Prog

/-- Run `p`, then `k` on its result. -/
def bind (p : Prog σ ω χ ε α) (k : α → Prog σ ω χ ε β) : Prog σ ω χ ε β :=
  match p with
  | .pure a => k a
  | .throw e => .throw e
  | .act op eff next => .act op eff fun c s => (next c s).bind k

/-- Run `p`; if it raises, run the handler. -/
def tryCatch (p : Prog σ ω χ ε α) (h : ε → Prog σ ω χ ε α) : Prog σ ω χ ε α :=
  match p with
  | .pure a => .pure a
  | .throw e => h e
  | .act op eff next => .act op eff fun c s => (next c s).tryCatch h

instance : Monad (Prog σ ω χ ε) where
  pure := .pure
  bind := bind

instance : MonadExcept ε (Prog σ ω χ ε) where
  throw := .throw
  tryCatch := tryCatch

/-- Run `p` and hand over its exception as a value. -/
def attempt (p : Prog σ ω χ ε α) : Prog σ ω χ ε (Except ε α) :=
  (p.bind fun a => .pure (.ok a)).tryCatch fun e => .pure (.error e)

/-- `p`, and if it raises, `cleanup` before the exception goes on. -/
def onError (p : Prog σ ω χ ε α) (cleanup : Prog σ ω χ ε Unit) : Prog σ ω χ ε α :=
  p.tryCatch fun e => cleanup.bind fun _ => .throw e

/-- A program on the component `get` of a larger state. -/
def zoom (get : σ → τ) (modify : (τ → τ) → σ → σ) (label : ω → ω') :
    Prog τ ω χ ε α → Prog σ ω' χ ε α
  | .pure a => .pure a
  | .throw e => .throw e
  | .act op eff next =>
    .act (label op) (fun c s => modify (eff c) s) fun c s =>
      (next c (get s)).zoom get modify label

/-- The run in which the environment always makes the choice `c`. -/
def runWith (c : χ) : Prog σ ω χ ε α → σ → Except ε α × σ
  | .pure a, s => (.ok a, s)
  | .throw e, s => (.error e, s)
  | .act _ eff next, s => runWith c (next c s) (eff c s)

/-- The run in which the environment chooses by the operation and the state it finds. -/
def runBy (env : ω → σ → χ) : Prog σ ω χ ε α → σ → Except ε α × σ
  | .pure a, s => (.ok a, s)
  | .throw e, s => (.error e, s)
  | .act op eff next, s => runBy env (next (env op s) s) (eff (env op s) s)

/-- Every operation moves the state by `R`, whatever is chosen. -/
def Moves (R : σ → σ → Prop) : Prog σ ω χ ε α → Prop
  | .pure _ => True
  | .throw _ => True
  | .act _ eff next => ∀ c s, R s (eff c s) ∧ Moves R (next c s)

/-- What is left of a program, and the state, after some operations with the given choices. -/
def after : List χ → Prog σ ω χ ε α → σ → Prog σ ω χ ε α × σ
  | c :: cs, .act _ eff next, s => (next c s).after cs (eff c s)
  | [], p, s => (p, s)
  | _ :: _, .pure a, s => (.pure a, s)
  | _ :: _, .throw e, s => (.throw e, s)

/-- The environment may make these choices. -/
def Admitted (admits : ω → χ → σ → Prop) : List χ → Prog σ ω χ ε α → σ → Prop
  | c :: cs, .act op eff next, s => admits op c s ∧ Admitted admits cs (next c s) (eff c s)
  | [], _, _ => True
  | _ :: _, .pure _, _ => True
  | _ :: _, .throw _, _ => True

theorem admitted_of_forall {admits : ω → χ → σ → Prop} (h : ∀ op c s, admits op c s)
    (cs : List χ) (p : Prog σ ω χ ε α) (s : σ) : Admitted admits cs p s := by
  induction cs generalizing p s with
  | nil => exact trivial
  | cons c cs ih =>
    cases p with
    | pure a => exact trivial
    | throw e => exact trivial
    | act op eff next => exact ⟨h op c s, ih _ _⟩

theorem Admitted.mono {admits admits' : ω → χ → σ → Prop}
    (h : ∀ op c s, admits op c s → admits' op c s) {cs : List χ} {p : Prog σ ω χ ε α} {s : σ}
    (hp : Admitted admits cs p s) : Admitted admits' cs p s := by
  induction cs generalizing p s with
  | nil => exact trivial
  | cons c cs ih =>
    cases p with
    | pure a => exact trivial
    | throw e => exact trivial
    | act op eff next => exact ⟨h op c s hp.1, ih hp.2⟩

instance decidableAdmitted {admits : ω → χ → σ → Prop} [∀ op c s, Decidable (admits op c s)] :
    (cs : List χ) → (p : Prog σ ω χ ε α) → (s : σ) → Decidable (Admitted admits cs p s)
  | c :: cs, .act op eff next, s =>
    have : Decidable (Admitted admits cs (next c s) (eff c s)) :=
      decidableAdmitted cs (next c s) (eff c s)
    inferInstanceAs (Decidable (admits op c s ∧ Admitted admits cs (next c s) (eff c s)))
  | [], _, _ => isTrue trivial
  | _ :: _, .pure _, _ => isTrue trivial
  | _ :: _, .throw _, _ => isTrue trivial

theorem admitted_replicate {admits : ω → χ → σ → Prop} {c : χ} (h : ∀ op s, admits op c s) (n : Nat)
    (p : Prog σ ω χ ε α) (s : σ) : Admitted admits (List.replicate n c) p s := by
  induction n generalizing p s with
  | zero => exact trivial
  | succ n ih =>
    cases p with
    | pure a => exact trivial
    | throw e => exact trivial
    | act op eff next => exact ⟨h op s, ih _ _⟩

@[simp] theorem pure_eq (a : α) : (Pure.pure a : Prog σ ω χ ε α) = .pure a := rfl

@[simp] theorem throw_eq (e : ε) :
    (MonadExcept.throw e : Prog σ ω χ ε α) = .throw e := rfl

@[simp] theorem bind_eq (p : Prog σ ω χ ε α) (k : α → Prog σ ω χ ε β) : p >>= k = p.bind k := rfl

@[simp] theorem map_eq (f : α → β) (p : Prog σ ω χ ε α) : f <$> p = p.bind fun a => .pure (f a) :=
  rfl

@[simp] theorem tryCatch_eq (p : Prog σ ω χ ε α) (h : ε → Prog σ ω χ ε α) :
    MonadExcept.tryCatch p h = p.tryCatch h := rfl

@[simp] theorem bind_pure (a : α) (k : α → Prog σ ω χ ε β) : (Prog.pure a).bind k = k a := rfl

@[simp] theorem bind_throw (e : ε) (k : α → Prog σ ω χ ε β) :
    (Prog.throw e : Prog σ ω χ ε α).bind k = .throw e := rfl

theorem bind_assoc {γ : Type} (p : Prog σ ω χ ε α) (f : α → Prog σ ω χ ε β)
    (g : β → Prog σ ω χ ε γ) : (p.bind f).bind g = p.bind fun a => (f a).bind g := by
  induction p with
  | pure a => rfl
  | throw e => rfl
  | act op eff next ih =>
    show Prog.act op eff _ = Prog.act op eff _
    exact congrArg _ (funext fun c => funext fun s => ih c s)

theorem runWith_bind (c : χ) (p : Prog σ ω χ ε α) (k : α → Prog σ ω χ ε β) (s : σ) :
    (p.bind k).runWith c s =
      match p.runWith c s with
      | (.ok a, s') => (k a).runWith c s'
      | (.error e, s') => (.error e, s') := by
  induction p generalizing s with
  | pure a => rfl
  | throw e => rfl
  | act op eff next ih => exact ih c s (eff c s)

theorem runWith_tryCatch (c : χ) (p : Prog σ ω χ ε α) (h : ε → Prog σ ω χ ε α) (s : σ) :
    (p.tryCatch h).runWith c s =
      match p.runWith c s with
      | (.ok a, s') => (.ok a, s')
      | (.error e, s') => (h e).runWith c s' := by
  induction p generalizing s with
  | pure a => rfl
  | throw e => rfl
  | act op eff next ih => exact ih c s (eff c s)

@[simp] theorem after_pure (cs : List χ) (a : α) (s : σ) :
    (Prog.pure a : Prog σ ω χ ε α).after cs s = (.pure a, s) := by
  cases cs <;> rfl

@[simp] theorem after_throw (cs : List χ) (e : ε) (s : σ) :
    (Prog.throw e : Prog σ ω χ ε α).after cs s = (.throw e, s) := by
  cases cs <;> rfl

/-- A run with one choice throughout, operation by operation. -/
theorem exists_after_runWith (c : χ) (p : Prog σ ω χ ε α) (s : σ) :
    ∃ n q, p.after (List.replicate n c) s = (q, (p.runWith c s).2) ∧
      match (p.runWith c s).1 with
      | .ok a => q = .pure a
      | .error e => q = .throw e := by
  induction p generalizing s with
  | pure a => exact ⟨0, _, rfl, rfl⟩
  | throw e => exact ⟨0, _, rfl, rfl⟩
  | act op eff next ih =>
    obtain ⟨n, q, hafter, hq⟩ := ih c s (eff c s)
    exact ⟨n + 1, q, hafter, hq⟩

/-! ### Runs to the end -/

/-- **A run to the end**: with some choices of the environment, `p` ends with this outcome. -/
inductive Ends : Prog σ ω χ ε α → σ → Except ε α → σ → Prop
  | pure (a : α) (s : σ) : Ends (.pure a) s (.ok a) s
  | throw (e : ε) (s : σ) : Ends (.throw e) s (.error e) s
  | act {op : ω} {eff : χ → σ → σ} {next : χ → σ → Prog σ ω χ ε α} (c : χ) {s t : σ}
      {r : Except ε α} (h : Ends (next c s) (eff c s) r t) : Ends (.act op eff next) s r t

section Ends

variable {r : Except ε β} {s t : σ}

@[simp] theorem ends_pure {a : α} {r : Except ε α} :
    Ends (.pure a : Prog σ ω χ ε α) s r t ↔ r = .ok a ∧ t = s := by
  refine ⟨fun h => ?_, ?_⟩
  · cases h
    exact ⟨rfl, rfl⟩
  · rintro ⟨rfl, rfl⟩
    exact .pure a t

@[simp] theorem ends_throw {e : ε} {r : Except ε α} :
    Ends (.throw e : Prog σ ω χ ε α) s r t ↔ r = .error e ∧ t = s := by
  refine ⟨fun h => ?_, ?_⟩
  · cases h
    exact ⟨rfl, rfl⟩
  · rintro ⟨rfl, rfl⟩
    exact .throw e t

/-- **Sequencing.** -/
theorem ends_bind {p : Prog σ ω χ ε α} {k : α → Prog σ ω χ ε β} :
    (p.bind k).Ends s r t ↔ (∃ a u, p.Ends s (.ok a) u ∧ (k a).Ends u r t) ∨
      ∃ e, p.Ends s (.error e) t ∧ r = .error e := by
  induction p generalizing s with
  | pure a =>
    rw [bind_pure]
    constructor
    · exact fun h => Or.inl ⟨a, s, .pure a s, h⟩
    · rintro (⟨a', u, h, hk⟩ | ⟨e, h, -⟩)
      · cases h
        exact hk
      · cases h
  | throw e =>
    rw [bind_throw, ends_throw]
    constructor
    · rintro ⟨rfl, rfl⟩
      exact Or.inr ⟨e, .throw e t, rfl⟩
    · rintro (⟨a, u, h, -⟩ | ⟨e', h, rfl⟩)
      · cases h
      · cases h
        exact ⟨rfl, rfl⟩
  | act op eff next ih =>
    constructor
    · rintro ⟨⟩
      rename_i c h
      rcases (ih c s).mp h with ⟨a, u, hp, hk⟩ | ⟨e, hp, rfl⟩
      · exact Or.inl ⟨a, u, .act c hp, hk⟩
      · exact Or.inr ⟨e, .act c hp, rfl⟩
    · rintro (⟨a, u, ⟨⟩, hk⟩ | ⟨e, ⟨⟩, rfl⟩)
      · rename_i c hp
        exact .act c ((ih c s).mpr (Or.inl ⟨a, u, hp, hk⟩))
      · rename_i c hp
        exact .act c ((ih c s).mpr (Or.inr ⟨e, hp, rfl⟩))

/-- **Exceptions.** -/
theorem ends_tryCatch {p : Prog σ ω χ ε β} {k : ε → Prog σ ω χ ε β} :
    (p.tryCatch k).Ends s r t ↔ (∃ a, p.Ends s (.ok a) t ∧ r = .ok a) ∨
      ∃ e u, p.Ends s (.error e) u ∧ (k e).Ends u r t := by
  induction p generalizing s with
  | pure a =>
    rw [tryCatch, ends_pure]
    constructor
    · rintro ⟨rfl, rfl⟩
      exact Or.inl ⟨a, .pure a t, rfl⟩
    · rintro (⟨a', h, rfl⟩ | ⟨e, u, h, -⟩)
      · cases h
        exact ⟨rfl, rfl⟩
      · cases h
  | throw e =>
    constructor
    · exact fun h => Or.inr ⟨e, s, .throw e s, h⟩
    · rintro (⟨a, h, -⟩ | ⟨e', u, h, hk⟩)
      · cases h
      · cases h
        exact hk
  | act op eff next ih =>
    constructor
    · rintro ⟨⟩
      rename_i c h
      rcases (ih c s).mp h with ⟨a, hp, rfl⟩ | ⟨e, u, hp, hk⟩
      · exact Or.inl ⟨a, .act c hp, rfl⟩
      · exact Or.inr ⟨e, u, .act c hp, hk⟩
    · rintro (⟨a, ⟨⟩, rfl⟩ | ⟨e, u, ⟨⟩, hk⟩)
      · rename_i c hp
        exact .act c ((ih c s).mpr (Or.inl ⟨a, hp, rfl⟩))
      · rename_i c hp
        exact .act c ((ih c s).mpr (Or.inr ⟨e, u, hp, hk⟩))

/-- An exception handed over as a value. -/
theorem ends_attempt {p : Prog σ ω χ ε α} {r : Except ε (Except ε α)} :
    p.attempt.Ends s r t ↔ ∃ x, p.Ends s x t ∧ r = .ok x := by
  rw [attempt, ends_tryCatch]
  constructor
  · rintro (⟨x, h, rfl⟩ | ⟨e, u, h, hk⟩)
    · rcases ends_bind.mp h with ⟨a, u, hp, hpure⟩ | ⟨e, -, he⟩
      · obtain ⟨hx, rfl⟩ := ends_pure.mp hpure
        cases hx
        exact ⟨.ok a, hp, rfl⟩
      · cases he
    · obtain ⟨rfl, rfl⟩ := ends_pure.mp hk
      rcases ends_bind.mp h with ⟨a, u, -, hpure⟩ | ⟨e', hp, he⟩
      · cases (ends_pure.mp hpure).1
      · cases he
        exact ⟨.error e, hp, rfl⟩
  · rintro ⟨a | a, hp, rfl⟩
    · exact Or.inr ⟨a, t, ends_bind.mpr (Or.inr ⟨a, hp, rfl⟩), .pure _ _⟩
    · exact Or.inl ⟨.ok a, ends_bind.mpr (Or.inl ⟨a, t, hp, .pure _ _⟩), rfl⟩

end Ends

/-! ### Footprints -/

section Moves

variable {R : σ → σ → Prop}

theorem moves_true (p : Prog σ ω χ ε α) : p.Moves fun _ _ => True := by
  induction p with
  | pure a => exact trivial
  | throw e => exact trivial
  | act op eff next ih => exact fun c s => ⟨trivial, ih c s⟩

theorem Moves.mono {S : σ → σ → Prop} {p : Prog σ ω χ ε α} (hp : p.Moves R)
    (h : ∀ s t, R s t → S s t) : p.Moves S := by
  induction p with
  | pure a => exact trivial
  | throw e => exact trivial
  | act op eff next ih => exact fun c s => ⟨h _ _ (hp c s).1, ih c s (hp c s).2⟩

theorem Moves.bind {p : Prog σ ω χ ε α} {k : α → Prog σ ω χ ε β} (hp : p.Moves R)
    (hk : ∀ a, (k a).Moves R) : (p.bind k).Moves R := by
  induction p with
  | pure a => exact hk a
  | throw e => exact trivial
  | act op eff next ih => exact fun c s => ⟨(hp c s).1, ih c s (hp c s).2⟩

theorem Moves.tryCatch {p : Prog σ ω χ ε α} {k : ε → Prog σ ω χ ε α} (hp : p.Moves R)
    (hk : ∀ e, (k e).Moves R) : (p.tryCatch k).Moves R := by
  induction p with
  | pure a => exact trivial
  | throw e => exact hk e
  | act op eff next ih => exact fun c s => ⟨(hp c s).1, ih c s (hp c s).2⟩

theorem Moves.attempt {p : Prog σ ω χ ε α} (hp : p.Moves R) : p.attempt.Moves R := by
  refine Moves.tryCatch (hp.bind fun a => ?_) fun e => ?_
  · exact trivial
  · exact trivial

theorem Moves.onError {p : Prog σ ω χ ε α} {cleanup : Prog σ ω χ ε Unit} (hp : p.Moves R)
    (hc : cleanup.Moves R) : (p.onError cleanup).Moves R :=
  hp.tryCatch fun e => hc.bind fun _ => (trivial : (Prog.throw e : Prog σ ω χ ε α).Moves R)

theorem Moves.zoom {S : τ → τ → Prop} {get : τ → σ} {modify : (σ → σ) → τ → τ} {label : ω → ω'}
    (hRS : ∀ f t, R (get t) (f (get t)) → S t (modify f t)) {p : Prog σ ω χ ε α}
    (hp : p.Moves R) : (p.zoom get modify label).Moves S := by
  induction p with
  | pure a => exact trivial
  | throw e => exact trivial
  | act op eff next ih =>
    exact fun c t => ⟨hRS (eff c) t (hp c (get t)).1, ih c (get t) (hp c (get t)).2⟩

/-- Some operations of a program that keeps to a preorder. -/
theorem Moves.after (hrefl : ∀ s, R s s) (htrans : ∀ s t u, R s t → R t u → R s u)
    {p : Prog σ ω χ ε α} (hp : p.Moves R) (cs : List χ) (s : σ) : R s (p.after cs s).2 := by
  induction cs generalizing p s with
  | nil => exact hrefl s
  | cons c cs ih =>
    cases p with
    | pure a => exact hrefl s
    | throw e => exact hrefl s
    | act op eff next => exact htrans _ _ _ (hp c s).1 (ih (hp c s).2 _)

/-- Some operations of a program and of what follows it: either it is not done yet, or the others
are those of what follows. -/
theorem after_bind (p : Prog σ ω χ ε α) (k : α → Prog σ ω χ ε β) (cs : List χ) (s : σ) :
    (∃ q t, p.after cs s = (q, t) ∧ (p.bind k).after cs s = (q.bind k, t) ∧ ∀ a, q ≠ .pure a) ∨
      ∃ ds es a t, cs = ds ++ es ∧ p.after ds s = (.pure a, t) ∧
        (p.bind k).after cs s = (k a).after es t := by
  induction cs generalizing p s with
  | nil =>
    cases p with
    | pure a => exact Or.inr ⟨[], [], a, s, rfl, rfl, rfl⟩
    | throw e => exact Or.inl ⟨.throw e, s, rfl, rfl, fun a h => by cases h⟩
    | act op eff next => exact Or.inl ⟨.act op eff next, s, rfl, rfl, fun a h => by cases h⟩
  | cons c cs ih =>
    cases p with
    | pure a => exact Or.inr ⟨[], c :: cs, a, s, rfl, rfl, rfl⟩
    | throw e => exact Or.inl ⟨.throw e, s, rfl, rfl, fun a h => by cases h⟩
    | act op eff next =>
      rcases ih (next c s) (eff c s) with ⟨q, t, h⟩ | ⟨ds, es, a, t, rfl, hd, he⟩
      · exact Or.inl ⟨q, t, h⟩
      · exact Or.inr ⟨c :: ds, es, a, t, rfl, hd, he⟩

/-- An environment that always makes the choice `c`, as long as the program keeps to `R`. -/
theorem runBy_eq_runWith {I : σ → Prop} {env : ω → σ → χ} {c : χ}
    (hI : ∀ s t, I s → R s t → I t) (henv : ∀ op s, I s → env op s = c) {p : Prog σ ω χ ε α}
    (hp : p.Moves R) {s : σ} (hs : I s) : p.runBy env s = p.runWith c s := by
  induction p generalizing s with
  | pure a => rfl
  | throw e => rfl
  | act op eff next ih =>
    simp only [runBy, runWith, henv op s hs]
    exact ih c s (hp c s).2 (hI s _ hs (hp c s).1)

end Moves

end Prog

/-! ### Contracts -/

/-- What a program may assume of its environment between two operations (`rely`, a preorder), which
choices the environment makes (`admits`), and what each of its own operations may do
(`guarantee`). -/
structure Contract (σ ω χ : Type) where
  rely : σ → σ → Prop
  admits : ω → χ → σ → Prop
  guarantee : σ → σ → Prop
  rely_refl : ∀ s, rely s s
  rely_trans : ∀ {s t u}, rely s t → rely t u → rely s u

/-- The contract of a program that runs alone. -/
def Contract.alone (admits : ω → χ → σ → Prop) (guarantee : σ → σ → Prop) : Contract σ ω χ where
  rely := Eq
  admits := admits
  guarantee := guarantee
  rely_refl := fun _ => rfl
  rely_trans := Eq.trans

/-- An assertion the environment does not falsify. -/
def Contract.Stable (C : Contract σ ω χ) (P : σ → Prop) : Prop :=
  ∀ s s', C.rely s s' → P s → P s'

theorem Contract.Stable.and {C : Contract σ ω χ} {P Q : σ → Prop} (hP : C.Stable P)
    (hQ : C.Stable Q) : C.Stable fun s => P s ∧ Q s :=
  fun s s' hr h => ⟨hP s s' hr h.1, hQ s s' hr h.2⟩

theorem Contract.Stable.imp {C : Contract σ ω χ} {P : σ → Prop} {q : Prop} (hP : q → C.Stable P) :
    C.Stable fun s => q → P s :=
  fun s s' hr h hq => hP hq s s' hr (h hq)

theorem Contract.Stable.forall {ι : Sort*} {C : Contract σ ω χ} {P : ι → σ → Prop}
    (hP : ∀ i, C.Stable (P i)) : C.Stable fun s => ∀ i, P i s :=
  fun s s' hr h i => hP i s s' hr (h i)

/-- **The weakest precondition** of a program under a contract. -/
def Ensures (C : Contract σ ω χ) (post : α → σ → Prop) (exc : ε → σ → Prop) :
    Prog σ ω χ ε α → σ → Prop
  | .pure a, s => ∀ s', C.rely s s' → post a s'
  | .throw e, s => ∀ s', C.rely s s' → exc e s'
  | .act op eff next, s => ∀ s', C.rely s s' → ∀ c, C.admits op c s' →
      C.guarantee s' (eff c s') ∧ Ensures C post exc (next c s') (eff c s')

namespace Ensures

variable {C : Contract σ ω χ} {post post' : α → σ → Prop} {exc exc' : ε → σ → Prop}

/-- The environment may move before the program starts. -/
theorem stable {p : Prog σ ω χ ε α} {s s' : σ} (h : Ensures C post exc p s) (hr : C.rely s s') :
    Ensures C post exc p s' := by
  cases p with
  | pure a => exact fun t ht => h t (C.rely_trans hr ht)
  | throw e => exact fun t ht => h t (C.rely_trans hr ht)
  | act op eff next => exact fun t ht => h t (C.rely_trans hr ht)

theorem mono {p : Prog σ ω χ ε α} {s : σ} (h : Ensures C post exc p s)
    (hpost : ∀ a t, post a t → post' a t) (hexc : ∀ e t, exc e t → exc' e t) :
    Ensures C post' exc' p s := by
  induction p generalizing s with
  | pure a => exact fun t ht => hpost a t (h t ht)
  | throw e => exact fun t ht => hexc e t (h t ht)
  | act op eff next ih =>
    intro t ht c hc
    obtain ⟨hg, hn⟩ := h t ht c hc
    exact ⟨hg, ih c t hn⟩

theorem pure_of {P : σ → Prop} (hP : C.Stable P) {a : α} {s : σ} (h : P s)
    (hpost : ∀ t, P t → post a t) : Ensures C post exc (.pure a) s :=
  fun t ht => hpost t (hP s t ht h)

theorem throw_of {P : σ → Prop} (hP : C.Stable P) {e : ε} {s : σ} (h : P s)
    (hexc : ∀ t, P t → exc e t) : Ensures C post exc (.throw e : Prog σ ω χ ε α) s :=
  fun t ht => hexc t (hP s t ht h)

/-- **One operation**, from a stable precondition. -/
theorem act {P : σ → Prop} (hP : C.Stable P) {op : ω} {eff : χ → σ → σ}
    {next : χ → σ → Prog σ ω χ ε α} {s : σ} (h : P s)
    (step : ∀ t c, P t → C.admits op c t →
      C.guarantee t (eff c t) ∧ Ensures C post exc (next c t) (eff c t)) :
    Ensures C post exc (.act op eff next) s :=
  fun t ht c hc => step t c (hP s t ht h) hc

/-- **Sequencing**: what `p` establishes is what `k` starts from. -/
theorem bind {p : Prog σ ω χ ε α} {k : α → Prog σ ω χ ε β} {mid : α → σ → Prop}
    {post : β → σ → Prop} {s : σ} (h : Ensures C mid exc p s)
    (hk : ∀ a t, mid a t → Ensures C post exc (k a) t) : Ensures C post exc (p.bind k) s := by
  induction p generalizing s with
  | pure a => exact hk a s (h s (C.rely_refl s))
  | throw e => exact h
  | act op eff next ih =>
    intro t ht c hc
    obtain ⟨hg, hn⟩ := h t ht c hc
    exact ⟨hg, ih c t hn⟩

/-- Sequencing, with what holds between the two programs. -/
theorem through (mid : α → σ → Prop) {p : Prog σ ω χ ε α} {k : α → Prog σ ω χ ε β}
    {post : β → σ → Prop} {s : σ} (h : Ensures C mid exc p s)
    (hk : ∀ a t, mid a t → Ensures C post exc (k a) t) : Ensures C post exc (p.bind k) s :=
  h.bind hk

/-- A function of the result. -/
theorem map {p : Prog σ ω χ ε α} {f : α → β} {post : β → σ → Prop} {s : σ}
    (h : Ensures C (fun a => post (f a)) exc p s) :
    Ensures C post exc (p.bind fun a => .pure (f a)) s := by
  induction p generalizing s with
  | pure a => exact h
  | throw e => exact h
  | act op eff next ih =>
    intro t ht c hc
    obtain ⟨hg, hn⟩ := h t ht c hc
    exact ⟨hg, ih c t hn⟩

/-- **Exceptions**: what `p` establishes when it raises is what the handler starts from. -/
theorem tryCatch {p : Prog σ ω χ ε α} {k : ε → Prog σ ω χ ε α} {mid : ε → σ → Prop} {s : σ}
    (h : Ensures C post mid p s) (hk : ∀ e t, mid e t → Ensures C post exc (k e) t) :
    Ensures C post exc (p.tryCatch k) s := by
  induction p generalizing s with
  | pure a => exact h
  | throw e => exact hk e s (h s (C.rely_refl s))
  | act op eff next ih =>
    intro t ht c hc
    obtain ⟨hg, hn⟩ := h t ht c hc
    exact ⟨hg, ih c t hn⟩

/-- An exception handed over as a value. -/
theorem attempt {p : Prog σ ω χ ε α} {s : σ} {post : Except ε α → σ → Prop}
    (h : Ensures C (fun a => post (.ok a)) (fun e => post (.error e)) p s) :
    Ensures C post exc p.attempt s := by
  induction p generalizing s with
  | pure a => exact h
  | throw e => exact h
  | act op eff next ih =>
    intro t ht c hc
    obtain ⟨hg, hn⟩ := h t ht c hc
    exact ⟨hg, ih c t hn⟩

/-- A cleanup that keeps `exc` runs before the exception goes on. -/
theorem onError {p : Prog σ ω χ ε α} {cleanup : Prog σ ω χ ε Unit} {mid : ε → σ → Prop} {s : σ}
    (h : Ensures C post mid p s)
    (hk : ∀ e t, mid e t → Ensures C (fun _ => exc e) exc cleanup t)
    (hexc : ∀ e, C.Stable (exc e)) : Ensures C post exc (p.onError cleanup) s := by
  refine tryCatch h fun e t ht => ?_
  exact bind (hk e t ht) fun _ u hu => throw_of (hexc e) hu fun _ h => h

/-- **A program on a component**: it meets the contract of the whole if its moves and those of the
environment are moves of the component, and `frame` holds beside it. -/
theorem zoom {C : Contract τ ω χ} {D : Contract σ ω' χ} {get : σ → τ}
    {modify : (τ → τ) → σ → σ} {label : ω → ω'} {post : α → τ → Prop} {exc : ε → τ → Prop}
    {frame : σ → Prop} (hget : ∀ f s, get (modify f s) = f (get s))
    (hrely : ∀ s t, frame s → D.rely s t → C.rely (get s) (get t) ∧ frame t)
    (hadmits : ∀ op c s, frame s → D.admits (label op) c s → C.admits op c (get s))
    (hguarantee : ∀ s f, frame s → C.guarantee (get s) (f (get s)) →
      D.guarantee s (modify f s) ∧ frame (modify f s))
    {p : Prog τ ω χ ε α} {s : σ} (h : Ensures C post exc p (get s)) (hs : frame s) :
    Ensures D (fun a t => post a (get t) ∧ frame t) (fun e t => exc e (get t) ∧ frame t)
      (p.zoom get modify label) s := by
  induction p generalizing s with
  | pure a => exact fun t ht => ⟨h _ (hrely s t hs ht).1, (hrely s t hs ht).2⟩
  | throw e => exact fun t ht => ⟨h _ (hrely s t hs ht).1, (hrely s t hs ht).2⟩
  | act op eff next ih =>
    intro t ht c hc
    obtain ⟨hr, hf⟩ := hrely s t hs ht
    obtain ⟨hg, hn⟩ := h (get t) hr c (hadmits op c t hf hc)
    obtain ⟨hg', hf'⟩ := hguarantee t (eff c) hf hg
    exact ⟨hg', ih c (get t) (by rwa [hget]) hf'⟩

/-- **A footprint**: what every move of a program keeps, it keeps. -/
theorem of_moves {R : σ → σ → Prop} {P : σ → Prop} (hP : C.Stable P)
    (hguarantee : ∀ s t, R s t → C.guarantee s t) (hkeeps : ∀ s t, R s t → P s → P t)
    {p : Prog σ ω χ ε α} (h : p.Moves R) {s : σ} (hs : P s) :
    Ensures C (fun _ => P) (fun _ => P) p s := by
  induction p generalizing s with
  | pure a => exact fun t ht => hP s t ht hs
  | throw e => exact fun t ht => hP s t ht hs
  | act op eff next ih =>
    intro t ht c _
    obtain ⟨hmove, hnext⟩ := h c t
    exact ⟨hguarantee _ _ hmove, ih c t hnext (hkeeps _ _ hmove (hP s t ht hs))⟩

/-- What is left of a program after some operations still meets its contract. -/
theorem after (hadmits : ∀ op c s, C.admits op c s) {p : Prog σ ω χ ε α} {s : σ}
    (h : Ensures C post exc p s) (cs : List χ) :
    Ensures C post exc (p.after cs s).1 (p.after cs s).2 := by
  induction cs generalizing p s with
  | nil => exact h
  | cons c cs ih =>
    cases p with
    | pure a => exact h
    | throw e => exact h
    | act op eff next => exact ih (h s (C.rely_refl s) c (hadmits op c s)).2

/-- What every move establishes holds at every instant. -/
theorem holds_after (hadmits : ∀ op c s, C.admits op c s) {P : σ → Prop}
    (hguarantee : ∀ s t, C.guarantee s t → P t) {p : Prog σ ω χ ε α} {s : σ} (hs : P s)
    (h : Ensures C post exc p s) (cs : List χ) : P (p.after cs s).2 := by
  induction cs generalizing p s with
  | nil => exact hs
  | cons c cs ih =>
    cases p with
    | pure a => exact hs
    | throw e => exact hs
    | act op eff next =>
      obtain ⟨hg, hn⟩ := h s (C.rely_refl s) c (hadmits op c s)
      exact ih (hguarantee _ _ hg) hn

/-- What a program that runs alone to its end leaves behind. -/
theorem runWith {c : χ} (hc : ∀ op s, C.admits op c s) {p : Prog σ ω χ ε α} {s : σ}
    (h : Ensures C post exc p s) :
    match p.runWith c s with
    | (.ok a, t) => post a t
    | (.error e, t) => exc e t := by
  induction p generalizing s with
  | pure a => exact h s (C.rely_refl s)
  | throw e => exact h s (C.rely_refl s)
  | act op eff next ih => exact ih c s (h s (C.rely_refl s) c (hc op s)).2

/-- **Keeping track** of a preorder that every move obeys, from states of the invariant `I`. -/
theorem track {I : σ → Prop} {R : σ → σ → Prop}
    (trans : ∀ s t u, R s t → R t u → R s u)
    (rely : ∀ s t, I s → C.rely s t → I t ∧ R s t)
    (guarantee : ∀ s t, I s → C.guarantee s t → I t ∧ R s t)
    {p : Prog σ ω χ ε α} {s : σ} (hI : I s) (h : Ensures C post exc p s) :
    Ensures C (fun a t => post a t ∧ R s t) (fun e t => exc e t ∧ R s t) p s := by
  induction p generalizing s with
  | pure a => exact fun t ht => ⟨h t ht, (rely s t hI ht).2⟩
  | throw e => exact fun t ht => ⟨h t ht, (rely s t hI ht).2⟩
  | act op eff next ih =>
    intro t ht c hc
    obtain ⟨hg, hn⟩ := h t ht c hc
    obtain ⟨hIt, hst⟩ := rely s t hI ht
    obtain ⟨hIu, htu⟩ := guarantee t _ hIt hg
    have hsu := trans s t _ hst htu
    exact ⟨hg, (ih c t hIu hn).mono (fun a u hu => ⟨hu.1, trans s _ u hsu hu.2⟩)
      fun e u hu => ⟨hu.1, trans s _ u hsu hu.2⟩⟩

end Ensures

/-! ### Components -/

section Family

variable {κ : Type} {get : κ → σ → τ} {modify : κ → (τ → τ) → σ → σ} {label : κ → ω → ω'}

/-- A state with a component for each `k`, which moves as its components do. -/
def Contract.family (get : κ → σ → τ) (label : κ → ω → ω') (C : κ → Contract τ ω χ) :
    Contract σ ω' χ where
  rely s t := ∀ k, (C k).rely (get k s) (get k t)
  admits op c s := ∀ k o, op = label k o → (C k).admits o c (get k s)
  guarantee s t := ∀ k, (C k).guarantee (get k s) (get k t)
  rely_refl s k := (C k).rely_refl (get k s)
  rely_trans hs ht k := (C k).rely_trans (hs k) (ht k)

/-- Getting and modifying components: they do not touch each other. -/
structure Components (get : κ → σ → τ) (modify : κ → (τ → τ) → σ → σ) : Prop where
  same : ∀ k f s, get k (modify k f s) = f (get k s)
  other : ∀ k k' f s, k' ≠ k → get k' (modify k f s) = get k' s

/-- **A program on one of the components**, beside assertions about the others. -/
theorem Ensures.component (hc : Components get modify) {C : κ → Contract τ ω χ}
    (hrefl : ∀ k s, (C k).guarantee s s) {R : κ → τ → Prop} (hR : ∀ k, (C k).Stable (R k)) {k : κ}
    {post : α → τ → Prop} {exc : ε → τ → Prop} {p : Prog τ ω χ ε α} {s : σ}
    (h : Ensures (C k) post exc p (get k s)) (hs : ∀ k', k' ≠ k → R k' (get k' s)) :
    Ensures (Contract.family get label C)
      (fun a t => post a (get k t) ∧ ∀ k', k' ≠ k → R k' (get k' t))
      (fun e t => exc e (get k t) ∧ ∀ k', k' ≠ k → R k' (get k' t))
      (p.zoom (get k) (modify k) (label k)) s := by
  have hrely : ∀ t u, (∀ k', k' ≠ k → R k' (get k' t)) → (Contract.family get label C).rely t u →
      (C k).rely (get k t) (get k u) ∧ ∀ k', k' ≠ k → R k' (get k' u) :=
    fun t u hf hr => ⟨hr k, fun k' hk => hR k' _ _ (hr k') (hf k' hk)⟩
  refine Ensures.zoom (hc.same k) hrely (fun op c t _ ha => ha k op rfl) (fun t f hf hg => ?_) h hs
  refine ⟨fun k' => ?_, fun k' hk => ?_⟩
  · by_cases hk : k' = k
    · subst hk
      rwa [hc.same]
    · rw [hc.other k k' f t hk]
      exact hrefl k' _
  · rw [hc.other k k' f t hk]
    exact hf k' hk

end Family

end BkkCollector.Logic.Program
