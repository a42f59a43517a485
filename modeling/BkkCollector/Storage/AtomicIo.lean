import BkkCollector.Logic.Program
import BkkCollector.Python.Objects

/-! # File operations

One node of a program is one file operation. Its environment lets it succeed or makes it raise
`OSError`; of a failing write it also decides how many bytes reached the file. Every operation
below is an instance of `fsStep`. -/

namespace BkkCollector.Storage.AtomicIo

open BkkCollector.Logic.Program BkkCollector.Python.Objects

/-- What happens to a file operation. -/
inductive Choice where
  | ok
  | fault (persisted : ℕ)
  deriving DecidableEq

variable {σ ω α : Type}

/-- A program made of file operations. -/
abbrev FsProg (σ ω α : Type) := Prog σ ω Choice PyError α

/-- The exception of a failing file operation. -/
def ioError : PyError := ⟨.osError, ""⟩

/-- **One file operation**: `f` is what it does, or the exception it raises, on the state it finds;
`torn n` is what is left of it if it fails with `n` bytes written. -/
def fsStep (op : ω) (f : σ → Except PyError (σ × α)) (torn : ℕ → σ → σ) : FsProg σ ω α :=
  .act op
    (fun c s =>
      match c with
      | .ok => match f s with
        | .ok r => r.1
        | .error _ => s
      | .fault n => torn n s)
    fun c s =>
      match c with
      | .ok => match f s with
        | .ok r => .pure r.2
        | .error e => .throw e
      | .fault _ => .throw ioError

/-- A computation in memory. -/
def inMemory : Except PyError α → FsProg σ ω α
  | .ok a => .pure a
  | .error e => .throw e

/-- An operation that changes the state, or fails and changes nothing. -/
def fsOp (op : ω) (eff : σ → σ) : FsProg σ ω Unit :=
  fsStep op (fun s => .ok (eff s, ())) fun _ s => s

/-- An operation that reads the state; what it finds can itself be an exception. -/
def fsRead (op : ω) (f : σ → Except PyError α) : FsProg σ ω α :=
  fsStep op (fun s => (f s).map fun a => (s, a)) fun _ s => s

/-- `read_json`: whatever goes wrong, the caller gets the default. -/
def readJson (op : ω) (default : α) (f : σ → α) : FsProg σ ω α :=
  .act op (fun _ s => s) fun c s => match c with | .ok => .pure (f s) | .fault _ => .pure default

/-- `os.unlink`: raises `FileNotFoundError` where there is no such file. -/
def unlink (op : ω) (exists? : σ → Bool) (remove : σ → σ) : FsProg σ ω Unit :=
  fsStep op (fun s => if exists? s then .ok (remove s, ()) else .error ⟨.fileNotFoundError, ""⟩)
    fun _ s => s

/-- `except FileNotFoundError: pass`. -/
def ignoreMissing (p : FsProg σ ω Unit) : FsProg σ ω Unit :=
  p.tryCatch fun e => if e.type = .fileNotFoundError then .pure () else .throw e

/-! ### Atomic replacement -/

/-- The file operations of `atomic_write_bytes`. -/
inductive WriteOp where
  | mkdir
  | openTemporary
  | write
  | replace
  | unlinkTemporary
  deriving DecidableEq

/-- `atomic_write_bytes`: `install` is the effect of `os.replace`, `add` and `drop` the arrival and
the removal of the temporary file. At each exit of the `try` block it is known whether the temporary
file is there, so the `finally` clause is written out at each of them; the best-effort
`fsync_directory` changes nothing and raises nothing. -/
def atomicWriteBytes (label : WriteOp → ω) (add drop install : σ → σ) : FsProg σ ω Unit := do
  fsOp (label .mkdir) id
  (fsOp (label .openTemporary) add).onError (fsOp (label .unlinkTemporary) id)
  Prog.onError
    (do
      fsOp (label .write) id
      fsOp (label .replace) fun s => drop (install s))
    (fsOp (label .unlinkTemporary) drop)
  fsOp (label .unlinkTemporary) id

/-- `atomic_write_json` of a file whose temporary copies nobody looks at. -/
def atomicWriteJson (label : WriteOp → ω) (install : σ → σ) : FsProg σ ω Unit :=
  atomicWriteBytes label id id install

/-! ### Runs without faults -/

/-- The run in which every file operation succeeds. -/
def run (p : FsProg σ ω α) (s : σ) : Except PyError α × σ := p.runWith .ok s

section Run

variable {β : Type} {s : σ}

@[simp] theorem run_pure (a : α) : run (.pure a : FsProg σ ω α) s = (.ok a, s) := rfl

@[simp] theorem run_throw (e : PyError) : run (.throw e : FsProg σ ω α) s = (.error e, s) := rfl

@[simp] theorem run_bind (p : FsProg σ ω α) (k : α → FsProg σ ω β) :
    run (p.bind k) s =
      match run p s with
      | (.ok a, t) => run (k a) t
      | (.error e, t) => (.error e, t) := by
  simp only [run, Prog.runWith_bind]
  generalize p.runWith Choice.ok s = r
  rcases r with ⟨_ | _, _⟩ <;> rfl

@[simp] theorem run_onError (p : FsProg σ ω α) (cleanup : FsProg σ ω Unit) :
    run (p.onError cleanup) s =
      match run p s with
      | (.ok a, t) => (.ok a, t)
      | (.error e, t) => run (cleanup.bind fun _ => .throw e) t := by
  simp only [run, Prog.onError, Prog.runWith_tryCatch]
  generalize p.runWith Choice.ok s = r
  rcases r with ⟨_ | _, _⟩ <;> rfl

@[simp] theorem run_fsStep (op : ω) (f : σ → Except PyError (σ × α)) (torn : ℕ → σ → σ) :
    run (fsStep op f torn) s =
      match f s with
      | .ok r => (.ok r.2, r.1)
      | .error e => (.error e, s) := by
  simp only [run, fsStep, Prog.runWith]
  cases f s <;> rfl

@[simp] theorem run_fsOp (op : ω) (eff : σ → σ) : run (fsOp op eff) s = (.ok (), eff s) := by
  simp [fsOp]

@[simp] theorem run_fsRead (op : ω) (f : σ → Except PyError α) :
    run (fsRead op f) s = (f s, s) := by
  cases h : f s <;> simp [fsRead, h, Except.map]

@[simp] theorem run_readJson (op : ω) (default : α) (f : σ → α) :
    run (readJson op default f) s = (.ok (f s), s) := rfl

@[simp] theorem run_atomicWriteJson (label : WriteOp → ω) (install : σ → σ) :
    run (atomicWriteJson label install) s = (.ok (), install s) := by
  simp [atomicWriteJson, atomicWriteBytes]

end Run

/-- A program that does not raise unless a file operation fails. -/
def Returns (p : FsProg σ ω α) : Prop := ∀ s, ∃ a t, run p s = (.ok a, t)

theorem returns_pure (a : α) : Returns (.pure a : FsProg σ ω α) :=
  fun s => ⟨a, s, rfl⟩

theorem returns_bind {β : Type} {p : FsProg σ ω α} {k : α → FsProg σ ω β} (hp : Returns p)
    (hk : ∀ a, Returns (k a)) : Returns (p.bind k) := by
  intro s
  obtain ⟨a, t, ha⟩ := hp s
  obtain ⟨b, u, hb⟩ := hk a t
  exact ⟨b, u, by rw [run_bind, ha]; exact hb⟩

theorem returns_fsRead (op : ω) (f : σ → α) :
    Returns (fsRead op fun s => .ok (f s) : FsProg σ ω α) :=
  fun s => ⟨f s, s, by rw [run_fsRead]⟩

theorem returns_attempt (p : FsProg σ ω α) : Returns p.attempt := by
  intro s
  unfold run
  rw [Prog.attempt, Prog.runWith_tryCatch, Prog.runWith_bind]
  generalize p.runWith Choice.ok s = r
  obtain ⟨a | e, t⟩ := r
  · exact ⟨_, t, rfl⟩
  · exact ⟨_, t, rfl⟩

/-! ### Footprints -/

section Moves

variable {R : σ → σ → Prop}

theorem moves_fsStep {op : ω} {f : σ → Except PyError (σ × α)} {torn : ℕ → σ → σ}
    (hok : ∀ s r, f s = .ok r → R s r.1) (herror : ∀ s, R s s) (htorn : ∀ n s, R s (torn n s)) :
    (fsStep op f torn : FsProg σ ω α).Moves R := by
  intro c s
  cases c with
  | ok =>
    cases hf : f s with
    | ok r => simpa [hf, Prog.Moves] using hok s r hf
    | error e => simpa [hf, Prog.Moves] using herror s
  | fault n => simpa [Prog.Moves] using htorn n s

theorem moves_fsOp {op : ω} {eff : σ → σ} (hrefl : ∀ s, R s s) (h : ∀ s, R s (eff s)) :
    (fsOp op eff : FsProg σ ω Unit).Moves R :=
  moves_fsStep (fun s r hr => by cases hr; exact h s) hrefl fun _ => hrefl

theorem moves_fsRead {op : ω} {f : σ → Except PyError α} (hrefl : ∀ s, R s s) :
    (fsRead op f : FsProg σ ω α).Moves R := by
  refine moves_fsStep (fun s r hr => ?_) hrefl fun _ => hrefl
  cases hf : f s with
  | ok a =>
    rw [hf] at hr
    cases hr
    exact hrefl s
  | error e =>
    rw [hf] at hr
    cases hr

theorem moves_readJson {op : ω} {default : α} {f : σ → α} (hrefl : ∀ s, R s s) :
    (readJson op default f : FsProg σ ω α).Moves R := by
  intro c s
  cases c with
  | ok => exact ⟨hrefl s, trivial⟩
  | fault n => exact ⟨hrefl s, trivial⟩

theorem moves_unlink {op : ω} {exists? : σ → Bool} {remove : σ → σ} (hrefl : ∀ s, R s s)
    (h : ∀ s, R s (remove s)) : (unlink op exists? remove).Moves R := by
  refine moves_fsStep (fun s r hr => ?_) hrefl fun _ => hrefl
  split at hr
  · cases hr
    exact h s
  · cases hr

theorem moves_ignoreMissing {p : FsProg σ ω Unit} (hp : p.Moves R) : (ignoreMissing p).Moves R := by
  refine hp.tryCatch fun e => ?_
  split
  · exact trivial
  · exact trivial

theorem moves_atomicWriteBytes {label : WriteOp → ω} {add drop install : σ → σ}
    (hrefl : ∀ s, R s s) (hadd : ∀ s, R s (add s)) (hdrop : ∀ s, R s (drop s))
    (hinstall : ∀ s, R s (drop (install s))) :
    (atomicWriteBytes label add drop install).Moves R := by
  have hskip : ∀ op, (fsOp op id : FsProg σ ω Unit).Moves R := fun op => moves_fsOp hrefl hrefl
  refine (hskip _).bind fun _ => ?_
  refine ((moves_fsOp hrefl hadd).onError (hskip _)).bind fun _ => ?_
  refine (Prog.Moves.onError ?_ (moves_fsOp hrefl hdrop)).bind fun _ => hskip _
  exact (hskip _).bind fun _ => moves_fsOp hrefl hinstall

end Moves

/-! ### Rules -/

section Rules

variable {C : Contract σ ω Choice} {post : α → σ → Prop} {exc : PyError → σ → Prop} {s : σ}

/-- The rule of `fsStep`, from a stable precondition. -/
theorem ensures_fsStep {P : σ → Prop} (hP : C.Stable P) (h : P s) {op : ω}
    {f : σ → Except PyError (σ × α)} {torn : ℕ → σ → σ}
    (hok : ∀ t r, P t → C.admits op .ok t → f t = .ok r →
      C.guarantee t r.1 ∧ ∀ u, C.rely r.1 u → post r.2 u)
    (herr : ∀ t e, P t → f t = .error e → C.guarantee t t ∧ ∀ u, C.rely t u → exc e u)
    (hfault : ∀ t n, P t → C.admits op (.fault n) t →
      C.guarantee t (torn n t) ∧ ∀ u, C.rely (torn n t) u → exc ioError u) :
    Ensures C post exc (fsStep op f torn) s := by
  refine Ensures.act hP h fun t c ht hc => ?_
  cases c with
  | ok =>
    cases hf : f t with
    | ok r => simp only; exact hok t r ht hc hf
    | error e => simp only; exact herr t e ht hf
  | fault n => exact hfault t n ht hc

/-- A contract that keeps the invariant `I`, and under which an operation fails only if `F`. -/
structure Keeps (C : Contract σ ω Choice) (I : σ → Prop) (F : Prop) : Prop where
  inv : C.Stable I
  refl : ∀ s, C.guarantee s s
  fault : ∀ op n s, C.admits op (.fault n) s → F

/-- What holds where a program raises: the invariant, and something has failed. -/
def Raised (I : σ → Prop) (F : Prop) (_ : PyError) (s : σ) : Prop := I s ∧ F

variable {I P : σ → Prop} {F : Prop}

theorem Keeps.raised (K : Keeps C I F) (e : PyError) : C.Stable (Raised I F e) :=
  fun s s' hr h => ⟨K.inv s s' hr h.1, h.2⟩

/-- **An operation that changes the state.** -/
theorem Keeps.op (K : Keeps C I F) {Q : σ → Prop} (hP : C.Stable P) (hQ : C.Stable Q)
    (hI : ∀ t, P t → I t) {op : ω} {eff : σ → σ}
    (step : ∀ t, P t → C.admits op .ok t → C.guarantee t (eff t) ∧ Q (eff t)) (h : P s) :
    Ensures C (fun _ => Q) (Raised I F) (fsOp op eff) s := by
  refine ensures_fsStep hP h (fun t r ht hc hr => ?_) (fun t e _ he => ?_) fun t n ht hn => ?_
  · cases hr
    obtain ⟨hg, hq⟩ := step t ht hc
    exact ⟨hg, fun u hu => hQ _ u hu hq⟩
  · cases he
  · exact ⟨K.refl t, fun u hu => K.raised _ _ u hu ⟨hI t ht, K.fault _ _ _ hn⟩⟩

/-- An operation without an effect. -/
theorem Keeps.skip (K : Keeps C I F) (hP : C.Stable P) (hI : ∀ t, P t → I t) {op : ω} (h : P s) :
    Ensures C (fun _ => P) (Raised I F) (fsOp op id) s :=
  K.op hP hP hI (fun t ht _ => ⟨K.refl t, ht⟩) h

/-- **An operation that reads.** -/
theorem Keeps.read (K : Keeps C I F) {Q : α → σ → Prop} (hP : C.Stable P)
    (hQ : ∀ a, C.Stable (Q a)) (hI : ∀ t, P t → I t) {op : ω} {f : σ → Except PyError α}
    (hok : ∀ t a, P t → f t = .ok a → Q a t) (herr : ∀ t e, P t → f t = .error e → F) (h : P s) :
    Ensures C Q (Raised I F) (fsRead op f) s := by
  refine ensures_fsStep hP h (fun t r ht _ hr => ?_) (fun t e ht he => ?_) fun t n ht hn => ?_
  · cases hf : f t with
    | error e =>
      rw [hf] at hr
      cases hr
    | ok a =>
      rw [hf] at hr
      cases hr
      exact ⟨K.refl t, fun u hu => hQ a t u hu (hok t a ht hf)⟩
  · cases hf : f t with
    | error e' =>
      exact ⟨K.refl t, fun u hu => K.raised _ _ u hu ⟨hI t ht, herr t e' ht hf⟩⟩
    | ok a =>
      rw [hf] at he
      cases he
  · exact ⟨K.refl t, fun u hu => K.raised _ _ u hu ⟨hI t ht, K.fault _ _ _ hn⟩⟩

/-- `read_json`. -/
theorem Keeps.readJson (K : Keeps C I F) {Q : α → σ → Prop} (hP : C.Stable P)
    (hQ : ∀ a, C.Stable (Q a)) {op : ω} {default : α} {f : σ → α} (hok : ∀ t, P t → Q (f t) t)
    (hfault : ∀ t n, P t → C.admits op (.fault n) t → Q default t) (h : P s) :
    Ensures C Q exc (readJson op default f) s := by
  refine Ensures.act hP h fun t c ht hc => ⟨K.refl t, ?_⟩
  cases c with
  | ok => exact fun u hu => hQ _ t u hu (hok t ht)
  | fault n => exact fun u hu => hQ _ t u hu (hfault t n ht hc)

/-- **The removal of a file**, which is missing only if `F`. -/
theorem Keeps.unlink (K : Keeps C I F) {Q : σ → Prop} (hP : C.Stable P) (hQ : C.Stable Q)
    (hI : ∀ t, P t → I t) {op : ω} {exists? : σ → Bool} {remove : σ → σ}
    (hmissing : ∀ t, P t → exists? t = false → F)
    (step : ∀ t, P t → C.admits op .ok t → C.guarantee t (remove t) ∧ Q (remove t)) (h : P s) :
    Ensures C (fun _ => Q) (Raised I F) (AtomicIo.unlink op exists? remove) s := by
  refine ensures_fsStep hP h (fun t r ht hc hr => ?_) (fun t e ht he => ?_) fun t n ht hn => ?_
  · split at hr
    · cases hr
      obtain ⟨hg, hq⟩ := step t ht hc
      exact ⟨hg, fun u hu => hQ _ u hu hq⟩
    · cases hr
  · split at he
    · cases he
    · next hex =>
      have hF := hmissing t ht (by simpa using hex)
      exact ⟨K.refl t, fun u hu => K.raised _ _ u hu ⟨hI t ht, hF⟩⟩
  · exact ⟨K.refl t, fun u hu => K.raised _ _ u hu ⟨hI t ht, K.fault _ _ _ hn⟩⟩

/-- The removal of a file that may be missing. -/
theorem Keeps.ignoreMissing (K : Keeps C I F) {Q : σ → Prop} (hP : C.Stable P) (hQ : C.Stable Q)
    (hI : ∀ t, P t → I t) {op : ω} {exists? : σ → Bool} {remove : σ → σ}
    (hmissing : ∀ t, P t → exists? t = false → Q t)
    (step : ∀ t, P t → exists? t = true → C.admits op .ok t →
      C.guarantee t (remove t) ∧ Q (remove t)) (h : P s) :
    Ensures C (fun _ => Q) (Raised I F) (ignoreMissing (AtomicIo.unlink op exists? remove)) s := by
  have hunlink : Ensures C (fun _ => Q)
      (fun e t => e.type = .fileNotFoundError ∧ Q t ∨ e = ioError ∧ Raised I F e t)
      (AtomicIo.unlink op exists? remove) s := by
    refine ensures_fsStep hP h (fun t r ht hc hr => ?_) (fun t e ht he => ?_) fun t n ht hn => ?_
    · split at hr
      · next hex =>
        cases hr
        obtain ⟨hg, hq⟩ := step t ht hex hc
        exact ⟨hg, fun u hu => hQ _ u hu hq⟩
      · cases hr
    · split at he
      · cases he
      · next hex =>
        cases he
        exact ⟨K.refl t, fun u hu =>
          Or.inl ⟨rfl, hQ t u hu (hmissing t ht (by simpa using hex))⟩⟩
    · exact ⟨K.refl t, fun u hu =>
        Or.inr ⟨rfl, K.raised _ _ u hu ⟨hI t ht, K.fault _ _ _ hn⟩⟩⟩
  refine hunlink.tryCatch fun e t ht => ?_
  rcases ht with ⟨htype, hq⟩ | ⟨rfl, hraised⟩
  · rw [if_pos htype]
    exact fun u hu => hQ t u hu hq
  · exact fun u hu => K.raised _ t u hu hraised

/-- A failing program whose cleanup keeps the invariant. -/
theorem Keeps.onError (K : Keeps C I F) {p : FsProg σ ω α} {op : ω} {cleanup : σ → σ}
    (hcleanup : ∀ t, I t → C.guarantee t (cleanup t) ∧ I (cleanup t))
    (h : Ensures C post (Raised I F) p s) :
    Ensures C post (Raised I F) (p.onError (fsOp op cleanup)) s := by
  refine h.onError (fun e t ht => ?_) K.raised
  refine (K.op (P := I) K.inv K.inv (fun _ h => h) (fun u hu _ => hcleanup u hu) ht.1).mono
    (fun _ u hu => ⟨hu, ht.2⟩) fun _ _ h => h

/-- **Atomic replacement**: nothing but the invariant until the new file is there. -/
theorem Keeps.atomicWrite (K : Keeps C I F) {Q : σ → Prop} (hP : C.Stable P) (hQ : C.Stable Q)
    (hI : ∀ t, P t → I t) (hQI : ∀ t, Q t → I t) {label : WriteOp → ω} {add drop install : σ → σ}
    (hadd : ∀ t, P t → C.guarantee t (add t) ∧ P (add t))
    (hdrop : ∀ t, I t → C.guarantee t (drop t) ∧ I (drop t))
    (hinstall : ∀ t, P t → C.admits (label .replace) .ok t →
      C.guarantee t (drop (install t)) ∧ Q (drop (install t))) (h : P s) :
    Ensures C (fun _ => Q) (Raised I F) (atomicWriteBytes label add drop install) s := by
  refine (K.skip hP hI h).bind fun _ t ht => ?_
  refine (K.onError (fun u hu => ⟨K.refl u, hu⟩)
    (K.op hP hP hI (fun u hu _ => hadd u hu) ht)).bind fun _ t ht => ?_
  refine (K.onError hdrop ?_).bind fun _ t ht => K.skip hQ hQI ht
  exact (K.skip hP hI ht).bind fun _ t ht => K.op hP hQ hI hinstall ht

end Rules

/-! ### Rules for a program that runs alone

The state is known before every operation, so no assertion has to be carried along. -/

section Alone

variable {admits : ω → Choice → σ → Prop} {guarantee : σ → σ → Prop} {post : α → σ → Prop}
  {exc : PyError → σ → Prop} {s : σ}

theorem alone_pure {a : α} (h : post a s) :
    Ensures (Contract.alone admits guarantee) post exc (.pure a) s := by
  rintro _ rfl
  exact h

theorem alone_throw {e : PyError} (h : exc e s) :
    Ensures (Contract.alone admits guarantee) post exc (.throw e : FsProg σ ω α) s := by
  rintro _ rfl
  exact h

theorem alone_inMemory {x : Except PyError α} (hok : ∀ a, x = .ok a → post a s)
    (herror : ∀ e, x = .error e → exc e s) :
    Ensures (Contract.alone admits guarantee) post exc (inMemory x) s := by
  cases x with
  | ok a => exact alone_pure (hok a rfl)
  | error e => exact alone_throw (herror e rfl)

theorem alone_fsStep {op : ω} {f : σ → Except PyError (σ × α)} {torn : ℕ → σ → σ}
    (hok : ∀ r, admits op .ok s → f s = .ok r → guarantee s r.1 ∧ post r.2 r.1)
    (herr : ∀ e, f s = .error e → guarantee s s ∧ exc e s)
    (hfault : ∀ n, admits op (.fault n) s → guarantee s (torn n s) ∧ exc ioError (torn n s)) :
    Ensures (Contract.alone admits guarantee) post exc (fsStep op f torn) s := by
  rintro _ rfl c hc
  cases c with
  | ok =>
    cases hf : f s with
    | ok r =>
      obtain ⟨hg, hp⟩ := hok r hc hf
      simp only [hf]
      exact ⟨hg, alone_pure hp⟩
    | error e =>
      obtain ⟨hg, he⟩ := herr e hf
      simp only [hf]
      exact ⟨hg, alone_throw he⟩
  | fault n =>
    obtain ⟨hg, he⟩ := hfault n hc
    exact ⟨hg, alone_throw he⟩

theorem alone_fsOp {post : Unit → σ → Prop} {op : ω} {eff : σ → σ}
    (hok : admits op .ok s → guarantee s (eff s) ∧ post () (eff s))
    (hfault : guarantee s s ∧ exc ioError s) :
    Ensures (Contract.alone admits guarantee) post exc (fsOp op eff) s := by
  refine alone_fsStep (fun r hc hr => ?_) (fun e he => ?_) fun _ _ => hfault
  · cases hr
    exact hok hc
  · cases he

theorem alone_fsRead {op : ω} {f : σ → Except PyError α} (hrefl : guarantee s s)
    (hok : ∀ a, f s = .ok a → post a s) (herr : ∀ e, f s = .error e → exc e s)
    (hfault : exc ioError s) :
    Ensures (Contract.alone admits guarantee) post exc (fsRead op f) s := by
  refine alone_fsStep (fun r _ hr => ?_) (fun e he => ?_) fun _ _ => ⟨hrefl, hfault⟩
  · obtain ⟨a, ha, rfl⟩ := map_eq_ok.mp hr
    exact ⟨hrefl, hok a ha⟩
  · cases hf : f s with
    | ok a =>
      rw [hf] at he
      cases he
    | error e' =>
      rw [hf] at he
      cases he
      exact ⟨hrefl, herr e hf⟩

theorem alone_readJson {op : ω} {default : α} {f : σ → α} (hrefl : guarantee s s)
    (hok : post (f s) s) (hfault : post default s) :
    Ensures (Contract.alone admits guarantee) post exc (readJson op default f) s := by
  rintro _ rfl c -
  cases c with
  | ok => exact ⟨hrefl, alone_pure hok⟩
  | fault n => exact ⟨hrefl, alone_pure hfault⟩

/-- Atomic replacement: an operation that fails does so before the new file is there, or behind
it. -/
theorem alone_atomicWrite {post : Unit → σ → Prop} {label : WriteOp → ω} {install : σ → σ}
    (hrefl : guarantee s s)
    (hinstall : guarantee s (install s) ∧ guarantee (install s) (install s) ∧ post () (install s))
    (hbefore : ∀ step n, admits (label step) (.fault n) s → exc ioError s)
    (hafter : ∀ step n, admits (label step) (.fault n) (install s) → exc ioError (install s)) :
    Ensures (Contract.alone admits guarantee) post exc (atomicWriteJson label install) s := by
  have hskip : ∀ step, Ensures (Contract.alone admits guarantee) (fun _ t => t = s)
      (fun e t => e = ioError ∧ t = s ∧ exc ioError s) (fsOp (label step) id) s := fun step =>
    alone_fsStep (fun r _ hr => by cases hr; exact ⟨hrefl, rfl⟩) (fun e he => by cases he)
      fun n hn => ⟨hrefl, rfl, rfl, hbefore step n hn⟩
  have hclean : ∀ {β : Type} {p : FsProg σ ω β} {mid : β → σ → Prop},
      Ensures (Contract.alone admits guarantee) mid (fun e t => e = ioError ∧ t = s ∧ exc ioError s)
        p s →
      Ensures (Contract.alone admits guarantee) mid exc
        (p.onError (fsOp (label .unlinkTemporary) id)) s := by
    intro β p mid hp
    refine hp.tryCatch fun e t ht => ?_
    obtain ⟨rfl, rfl, hexc⟩ := ht
    refine ((hskip .unlinkTemporary).mono (fun _ _ h => h) fun e u hu => ?_).bind fun _ u hu => ?_
    · obtain ⟨rfl, rfl, -⟩ := hu
      exact hexc
    · exact alone_throw (hu ▸ hexc)
  refine ((hskip .mkdir).mono (fun _ _ h => h) fun e u hu => ?_).bind fun _ t ht => ?_
  · obtain ⟨rfl, rfl, hexc⟩ := hu
    exact hexc
  subst ht
  refine (hclean (hskip .openTemporary)).bind fun _ u hu => ?_
  subst hu
  refine Ensures.through (fun _ t => t = install u) (hclean ?_) fun _ t ht => ?_
  · refine (hskip .write).bind fun _ v hv => ?_
    subst hv
    exact alone_fsStep (fun r _ hr => by cases hr; exact ⟨hinstall.1, rfl⟩) (fun e he => by cases he)
      fun n hn => ⟨hrefl, rfl, rfl, hbefore _ n hn⟩
  · subst ht
    exact alone_fsStep (fun r _ hr => by cases hr; exact ⟨hinstall.2.1, hinstall.2.2⟩)
      (fun e he => by cases he) fun n hn => ⟨hinstall.2.1, hafter _ n hn⟩

/-- Atomic replacement: it raises before the new file is there, or behind it. -/
theorem alone_atomicWriteJson {post : Unit → σ → Prop} {label : WriteOp → ω} {install : σ → σ}
    (hinstall : guarantee s (install s) ∧ post () (install s))
    (hbefore : guarantee s s ∧ exc ioError s)
    (hafter : guarantee (install s) (install s) ∧ exc ioError (install s)) :
    Ensures (Contract.alone admits guarantee) post exc (atomicWriteJson label install) s :=
  alone_atomicWrite hbefore.1 ⟨hinstall.1, hafter.1, hinstall.2⟩ (fun _ _ _ => hbefore.2)
    fun _ _ _ => hafter.2

end Alone

end BkkCollector.Storage.AtomicIo
