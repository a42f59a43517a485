import BkkCollector.Storage.PartitionInvariant

/-! # Working on one partition

Three parties work on a partition: the threads of the collector that stage and that flush, and the
maintenance process. `WorkerRely`, `IngestRely` and `MaintenanceRely` say what each may assume of
the other two between two of its operations, `WorkerStep`, `IngestStep` and `MaintenanceStep` what
each does. Programs that only read are specified for any contract. -/

namespace BkkCollector.Storage.PartitionRules

open BkkCollector.Logic.Program BkkCollector.Python.Objects BkkCollector.Config
open BkkCollector.Storage.AtomicIo BkkCollector.Storage.ParquetStore
open BkkCollector.Storage.PartitionStore BkkCollector.Storage.PartitionInvariant

/-! ### Parties -/

/-- What happens under a commit: new segments come, and compaction leaves the outputs of commit
markers alone. -/
structure WorkerRely (s t : Partition) : Prop where
  commits : t.commits = s.commits
  segments : ∀ n ∈ stagedNames s, t.segments.lookup n = s.segments.lookup n
  names : ∀ n ∈ stagedNames s, n ∈ stagedNames t
  outputs : ∀ d m, s.commits.lookup d = some m → t.parts.lookup m.output = s.parts.lookup m.output

/-- What a flush does. -/
structure WorkerStep (s t : Partition) : Prop where
  staged : t.staged = s.staged
  returned : t.returned = s.returned
  transaction : t.transaction = s.transaction
  segments : ∀ n ∈ t.segments, n ∈ s.segments
  directory : s.partsDirectory = true → t.partsDirectory = true
  parts : ∀ n file, s.parts.lookup n = some file → t.parts.lookup n = some file
  fresh : ∀ n ∈ t.parts, n ∉ s.parts →
    (∃ l d, n = .batch l d) ∧ ∀ tr, s.transaction = some tr → n ∉ tr.sources

/-- What happens under a stage call. -/
structure IngestRely (s t : Partition) : Prop where
  staged : t.staged = s.staged
  returned : t.returned = s.returned

/-- What a stage call does. -/
structure IngestStep (s t : Partition) : Prop where
  commits : t.commits = s.commits
  parts : t.parts = s.parts
  directory : t.partsDirectory = s.partsDirectory
  transaction : t.transaction = s.transaction
  segments : ∀ n ∈ stagedNames s, t.segments.lookup n = s.segments.lookup n
  names : ∀ n ∈ stagedNames s, n ∈ stagedNames t

/-- What happens under a compaction: committed batches come. -/
structure MaintenanceRely (s t : Partition) : Prop where
  transaction : t.transaction = s.transaction
  directory : s.partsDirectory = true → t.partsDirectory = true
  parts : ∀ n file, s.parts.lookup n = some file → t.parts.lookup n = some file
  fresh : ∀ n ∈ t.parts, n ∉ s.parts →
    (∃ l d, n = .batch l d) ∧ ∀ tr, s.transaction = some tr → n ∉ tr.sources

/-- What a compaction does. -/
structure MaintenanceStep (s t : Partition) : Prop where
  commits : t.commits = s.commits
  segments : t.segments = s.segments
  staged : t.staged = s.staged
  returned : t.returned = s.returned
  directory : t.partsDirectory = s.partsDirectory
  opens : t.transaction ≠ none → s.transaction ≠ none ∨ s.partsDirectory = true
  outputs : ∀ d m, s.commits.lookup d = some m → t.parts.lookup m.output = s.parts.lookup m.output

theorem WorkerRely.refl (s : Partition) : WorkerRely s s :=
  ⟨rfl, fun _ _ => rfl, fun _ h => h, fun _ _ _ => rfl⟩

theorem WorkerRely.trans {s t u : Partition} (h : WorkerRely s t) (h' : WorkerRely t u) :
    WorkerRely s u where
  commits := h'.commits.trans h.commits
  segments n hn := (h'.segments n (h.names n hn)).trans (h.segments n hn)
  names n hn := h'.names n (h.names n hn)
  outputs d m hm := (h'.outputs d m (by rw [h.commits]; exact hm)).trans (h.outputs d m hm)

theorem WorkerStep.refl (s : Partition) : WorkerStep s s :=
  ⟨rfl, rfl, rfl, fun _ h => h, fun h => h, fun _ _ h => h, fun _ h h' => absurd h h'⟩

theorem IngestRely.refl (s : Partition) : IngestRely s s := ⟨rfl, rfl⟩

theorem IngestRely.trans {s t u : Partition} (h : IngestRely s t) (h' : IngestRely t u) :
    IngestRely s u :=
  ⟨h'.staged.trans h.staged, h'.returned.trans h.returned⟩

theorem IngestStep.refl (s : Partition) : IngestStep s s :=
  ⟨rfl, rfl, rfl, rfl, fun _ _ => rfl, fun _ h => h⟩

theorem MaintenanceRely.refl (s : Partition) : MaintenanceRely s s :=
  ⟨rfl, fun h => h, fun _ _ h => h, fun _ h h' => absurd h h'⟩

theorem MaintenanceRely.trans {s t u : Partition} (h : MaintenanceRely s t)
    (h' : MaintenanceRely t u) : MaintenanceRely s u where
  transaction := h'.transaction.trans h.transaction
  directory hs := h'.directory (h.directory hs)
  parts n file hn := h'.parts n file (h.parts n file hn)
  fresh n hu hs := by
    by_cases ht : n ∈ t.parts
    · exact h.fresh n ht hs
    · rw [← h.transaction]
      exact h'.fresh n hu ht

theorem MaintenanceStep.refl (s : Partition) : MaintenanceStep s s :=
  ⟨rfl, rfl, rfl, rfl, rfl, Or.inl, fun _ _ _ => rfl⟩

theorem WorkerStep.maintenanceRely {s t : Partition} (h : WorkerStep s t) : MaintenanceRely s t :=
  ⟨h.transaction, h.directory, h.parts, h.fresh⟩

theorem WorkerStep.ingestRely {s t : Partition} (h : WorkerStep s t) : IngestRely s t :=
  ⟨h.staged, h.returned⟩

theorem IngestStep.workerRely {s t : Partition} (h : IngestStep s t) : WorkerRely s t :=
  ⟨h.commits, h.segments, h.names, fun _ _ _ => by rw [h.parts]⟩

theorem IngestStep.maintenanceRely {s t : Partition} (h : IngestStep s t) :
    MaintenanceRely s t where
  transaction := h.transaction
  directory hs := h.directory.trans hs
  parts n file hn := by
    rw [h.parts]
    exact hn
  fresh n hn hn' := by
    rw [h.parts] at hn
    exact absurd hn hn'

theorem MaintenanceStep.workerRely {s t : Partition} (h : MaintenanceStep s t) :
    WorkerRely s t where
  commits := h.commits
  segments n _ := by rw [h.segments]
  names n hn := by
    rw [stagedNames, h.staged]
    exact hn
  outputs := h.outputs

theorem MaintenanceStep.ingestRely {s t : Partition} (h : MaintenanceStep s t) : IngestRely s t :=
  ⟨h.staged, h.returned⟩

/-- A party of a contract: what it relies on, and that its steps are allowed. -/
structure Party (C : Contract Partition Op Choice) (I : Partition → Prop) (F : Prop)
    (rely step : Partition → Partition → Prop) : Prop extends Keeps C I F where
  relies : ∀ s t, I s → C.rely s t → rely s t
  allows : ∀ s t, I s → I t → step s t → C.guarantee s t

variable {C : Contract Partition Op Choice} {I P : Partition → Prop} {F : Prop} {s : Partition}

/-- What the moves of the others keep is stable. -/
theorem Party.stable {rely step : Partition → Partition → Prop} (W : Party C I F rely step)
    {A : Partition → Prop} (h : ∀ s t, I s → rely s t → A s → A t) :
    C.Stable fun p => I p ∧ A p :=
  fun s t hr hs => ⟨W.inv s t hr hs.1, h s t hs.1 (W.relies s t hs.1 hr) hs.2⟩

/-- A party that keeps more. -/
theorem Party.and {rely step : Partition → Partition → Prop} (W : Party C I F rely step)
    {A : Partition → Prop} (h : ∀ s t, I s → rely s t → A s → A t) :
    Keeps C (fun p => I p ∧ A p) F :=
  ⟨W.stable h, W.refl, W.fault⟩

/-- The contract of a party: the invariant is kept on both sides. -/
def partyContract (I : Partition → Prop) (admits : Op → Choice → Partition → Prop)
    (rely step : Partition → Partition → Prop) (refl : ∀ s, rely s s)
    (trans : ∀ s t u, rely s t → rely t u → rely s u) : Contract Partition Op Choice where
  rely s t := I s → I t ∧ rely s t
  admits := admits
  guarantee s t := I s → I t ∧ step s t
  rely_refl s hs := ⟨hs, refl s⟩
  rely_trans := fun h h' hs => ⟨(h' (h hs).1).1, trans _ _ _ (h hs).2 (h' (h hs).1).2⟩

theorem party_partyContract {admits : Op → Choice → Partition → Prop}
    {rely step : Partition → Partition → Prop} {refl : ∀ s, rely s s}
    {trans : ∀ s t u, rely s t → rely t u → rely s u} (hstep : ∀ s, step s s)
    (hfault : ∀ op n s, admits op (.fault n) s → F) :
    Party (partyContract I admits rely step refl trans) I F rely step where
  inv s t hr hs := (hr hs).1
  refl s hs := ⟨hs, hstep s⟩
  fault := hfault
  relies s t hs hr := (hr hs).2
  allows s t _ ht h _ := ⟨ht, h⟩

/-- A party that has the partition for itself. -/
theorem party_alone {admits : Op → Choice → Partition → Prop}
    {rely step : Partition → Partition → Prop} (hrely : ∀ s, rely s s) (hstep : ∀ s, step s s)
    (hfault : ∀ op n s, admits op (.fault n) s → F) :
    Party (partyContract I admits Eq step (fun _ => rfl) fun _ _ _ => Eq.trans) I F rely step where
  inv s t hr hs := (hr hs).1
  refl s hs := ⟨hs, hstep s⟩
  fault := hfault
  relies s t hs hr := by
    rw [← (hr hs).2]
    exact hrely s
  allows s t _ ht h _ := ⟨ht, h⟩

/-- The contracts of the three parties. -/
def workerContract (I : Partition → Prop) (admits : Op → Choice → Partition → Prop) :
    Contract Partition Op Choice :=
  partyContract I admits WorkerRely WorkerStep WorkerRely.refl fun _ _ _ => WorkerRely.trans

@[inherit_doc workerContract]
def ingestContract (I : Partition → Prop) (admits : Op → Choice → Partition → Prop) :
    Contract Partition Op Choice :=
  partyContract I admits IngestRely IngestStep IngestRely.refl fun _ _ _ => IngestRely.trans

@[inherit_doc workerContract]
def maintenanceContract (I : Partition → Prop) (admits : Op → Choice → Partition → Prop) :
    Contract Partition Op Choice :=
  partyContract I admits MaintenanceRely MaintenanceStep MaintenanceRely.refl
    fun _ _ _ => MaintenanceRely.trans

section Parties

variable {admits : Op → Choice → Partition → Prop} (hfault : ∀ op n s, admits op (.fault n) s → F)
include hfault

theorem party_worker : Party (workerContract I admits) I F WorkerRely WorkerStep :=
  party_partyContract WorkerStep.refl hfault

theorem party_ingest : Party (ingestContract I admits) I F IngestRely IngestStep :=
  party_partyContract IngestStep.refl hfault

theorem party_maintenance :
    Party (maintenanceContract I admits) I F MaintenanceRely MaintenanceStep :=
  party_partyContract MaintenanceStep.refl hfault

end Parties

/-! ### Reading -/

/-- The row count of a file that stays. -/
theorem ensures_parquetRowCount (K : Keeps C I F) (hP : C.Stable P) (hI : ∀ t, P t → I t)
    {part : PartName} (hpart : ∀ t, P t → part ∈ t.parts)
    (hsame : ∀ t u, P t → C.rely t u → u.parts.lookup part = t.parts.lookup part) (h : P s) :
    Ensures C (fun n t => P t ∧ Valid t part n) (Raised I F) (parquetRowCount part) s := by
  refine K.read (Q := fun n t => P t ∧ Valid t part n) hP
    (fun n t u hr ht => ⟨hP t u hr ht.1, ?_⟩) hI (fun t n ht hn => ⟨ht, ?_⟩)
    (fun t e ht he => ?_) h
  · rw [Valid, hsame t u ht.1 hr]
    exact ht.2
  · obtain ⟨file, hfile⟩ := Option.isSome_iff_exists.mp (AList.lookup_isSome.mpr (hpart t ht))
    rw [hfile] at hn
    cases hn
    exact ⟨file, hfile, rfl⟩
  · obtain ⟨file, hfile⟩ := Option.isSome_iff_exists.mp (AList.lookup_isSome.mpr (hpart t ht))
    rw [hfile] at he
    cases he

/-- **Is an output in place.** -/
theorem ensures_validOutput (K : Keeps C I F) (hP : C.Stable P) (hI : ∀ t, P t → I t)
    {output : PartName} (expectedRows : ℕ)
    (hsame : ∀ t u, P t → C.rely t u → u.parts.lookup output = t.parts.lookup output) (h : P s) :
    Ensures C (fun b t => P t ∧ (b = true ↔ Valid t output expectedRows)) (Raised I F)
      (validOutput output expectedRows) s := by
  have hmem : ∀ t u, P t → C.rely t u → (output ∈ u.parts ↔ output ∈ t.parts) := by
    intro t u ht hr
    rw [← AList.lookup_isSome, ← AList.lookup_isSome, hsame t u ht hr]
  have hpresent : C.Stable fun t => P t ∧ output ∈ t.parts :=
    fun t u hr ht => ⟨hP t u hr ht.1, (hmem t u ht.1 hr).mpr ht.2⟩
  have habsent : C.Stable fun t => P t ∧ output ∉ t.parts :=
    fun t u hr ht => ⟨hP t u hr ht.1, fun h => ht.2 ((hmem t u ht.1 hr).mp h)⟩
  have hstat : Ensures C (fun b t => P t ∧ (b = true ↔ output ∈ t.parts)) (Raised I F)
      (fsRead (.stat (.part output)) fun p => .ok (decide (output ∈ p.parts))) s :=
    K.read hP (fun b t u hr ht => ⟨hP t u hr ht.1, ht.2.trans (hmem t u ht.1 hr).symm⟩) hI
      (fun t b ht hb => ⟨ht, by cases hb; exact decide_eq_true_iff⟩) (fun t e _ he => by cases he) h
  refine hstat.bind fun b t ht => ?_
  cases b with
  | true =>
    refine (ensures_parquetRowCount K hpresent (fun u hu => hI u hu.1) (fun u hu => hu.2)
      (fun u v hu => hsame u v hu.1) ⟨ht.1, ht.2.mp rfl⟩).bind fun n u hu => ?_
    refine Ensures.pure_of (P := fun v => P v ∧ Valid v output n)
      (fun v w hr hv => ⟨hP v w hr hv.1, by rw [Valid, hsame v w hv.1 hr]; exact hv.2⟩)
      ⟨hu.1.1, hu.2⟩ fun v hv => ⟨hv.1, ?_⟩
    obtain ⟨file, hfile, hn⟩ := hv.2
    rw [decide_eq_true_iff, ← hn]
    constructor
    · exact fun h => ⟨file, hfile, h⟩
    · rintro ⟨file', hfile', h⟩
      rw [hfile] at hfile'
      cases hfile'
      exact h
  | false =>
    have hnot : output ∉ t.parts := fun h => by cases ht.2.mpr h
    refine Ensures.pure_of habsent ⟨ht.1, hnot⟩ fun u hu => ⟨hu.1, ?_⟩
    refine iff_of_false (by simp) ?_
    rintro ⟨file, hfile, -⟩
    exact hu.2 (AList.lookup_isSome.mp (by rw [hfile]; rfl))

/-- **Reading segments** that stay. -/
theorem ensures_readSegments (K : Keeps C I F) (hP : C.Stable P) (hI : ∀ t, P t → I t)
    (feed : Feed) {names : List String} (hpresent : ∀ t, P t → ∀ n ∈ names, n ∈ t.segments)
    (hsame : ∀ t u, P t → C.rely t u → ∀ n ∈ names, u.segments.lookup n = t.segments.lookup n)
    (h : P s) :
    Ensures C (fun rows t => P t ∧ tableRows feed rows = (names.map (segmentRows feed t)).sum)
      (Raised I F) (readSegments names) s := by
  induction names generalizing P s with
  | nil => exact Ensures.pure_of hP h fun t ht => ⟨ht, rfl⟩
  | cons name names ih =>
    have hname : ∀ t u, P t → C.rely t u → segmentRows feed u name = segmentRows feed t name :=
      fun t u ht hr => by rw [segmentRows, hsame t u ht hr name (List.mem_cons_self ..), segmentRows]
    have hrest : ∀ t u, P t → C.rely t u →
        names.map (segmentRows feed u) = names.map (segmentRows feed t) := fun t u ht hr => by
      refine List.map_congr_left fun n hn => ?_
      rw [segmentRows, hsame t u ht hr n (List.mem_cons_of_mem _ hn), segmentRows]
    have hstable : ∀ rows, C.Stable fun t =>
        P t ∧ tableRows feed rows = segmentRows feed t name := fun rows t u hr ht =>
      ⟨hP t u hr ht.1, by rw [hname t u ht.1 hr]; exact ht.2⟩
    have hread : Ensures C (fun rows t => P t ∧ tableRows feed rows = segmentRows feed t name)
        (Raised I F) (readSegment name) s := by
      refine K.read (Q := fun rows t => P t ∧ tableRows feed rows = segmentRows feed t name) hP
        hstable hI (fun t rows ht hrows => ⟨ht, ?_⟩) (fun t e ht he => ?_) h
      · cases hl : t.segments.lookup name with
        | none => simp [hl, missing] at hrows
        | some r =>
          simp only [hl, Except.ok.injEq] at hrows
          rw [← hrows, segmentRows_of_lookup hl]
      · obtain ⟨r, hr⟩ := Option.isSome_iff_exists.mp
          (AList.lookup_isSome.mpr (hpresent t ht name (List.mem_cons_self ..)))
        simp [hr] at he
    refine hread.bind fun rows t ht => ?_
    refine (ih (P := fun t => P t ∧ tableRows feed rows = segmentRows feed t name) (hstable rows)
      (fun u hu => hI u hu.1) (fun u hu n hn => hpresent u hu.1 n (List.mem_cons_of_mem _ hn))
      (fun u v hu hr n hn => hsame u v hu.1 hr n (List.mem_cons_of_mem _ hn)) ht).bind
      fun rest u hu => ?_
    refine Ensures.pure_of (P := fun u => (P u ∧ tableRows feed rows = segmentRows feed u name) ∧
        tableRows feed rest = (names.map (segmentRows feed u)).sum)
      (fun v w hr hv => ⟨hstable rows v w hr hv.1, by rw [hrest v w hv.1.1 hr]; exact hv.2⟩) hu
      fun v hv => ⟨hv.1.1, ?_⟩
    rw [tableRows_append, List.map_cons, List.sum_cons, hv.1.2, hv.2]

/-! ### Removing -/

/-- **Removing segments** one after the other: `Q` says how many are left. -/
theorem ensures_unlinkSegments {exc : PyError → Partition → Prop}
    {Q : List String → Partition → Prop} {remove : String → PartitionProg Unit} (hQ : C.Stable (Q []))
    (step : ∀ n names t, Q (n :: names) t → Ensures C (fun _ => Q names) exc (remove n) t)
    {names : List String} (h : Q names s) :
    Ensures C (fun _ => Q []) exc (unlinkSegments remove names) s := by
  induction names generalizing s with
  | nil => exact Ensures.pure_of hQ h fun t ht => ht
  | cons n names ih => exact (step n names s h).bind fun _ t ht => ih ht

/-! ### Footprints -/

section Footprints

variable {R : Partition → Partition → Prop}

/-- The removal of segments one after the other moves as each removal does. -/
theorem moves_unlinkSegments {remove : String → PartitionProg Unit}
    (h : ∀ name, (remove name).Moves R) (names : List String) :
    (unlinkSegments remove names).Moves R := by
  induction names with
  | nil => exact trivial
  | cons name names ih => exact (h name).bind fun _ => ih

variable (hrefl : ∀ p, R p p)
include hrefl

theorem moves_readSegments (names : List String) : (readSegments names).Moves R := by
  induction names with
  | nil => exact trivial
  | cons name names ih =>
    exact (moves_fsRead hrefl).bind fun _ => ih.bind fun _ => trivial

theorem moves_validOutput (output : PartName) (n : ℕ) : (validOutput output n).Moves R := by
  unfold validOutput
  refine (moves_fsRead hrefl).bind fun b => ?_
  cases b with
  | true => exact (moves_fsRead hrefl).bind fun _ => trivial
  | false => exact trivial

theorem moves_allPresent (names : List String) : (allPresent names).Moves R := by
  induction names with
  | nil => exact trivial
  | cons name names ih =>
    unfold allPresent
    refine (moves_fsRead hrefl).bind fun present => ?_
    cases present with
    | true => exact ih
    | false => exact trivial

theorem moves_writeParquetAtomic (feed : Feed) {rows : PartitionProg (List Row)}
    (h : rows.Moves R) {path : PartName} (hdirectory : ∀ p, R p { p with partsDirectory := true })
    (hpart : ∀ p file, R p { p with parts := p.parts.insert path file }) :
    (writeParquetAtomic feed rows path).Moves R := by
  have hop : ∀ op, (fsOp op id : PartitionProg Unit).Moves R := fun op => moves_fsOp hrefl hrefl
  unfold writeParquetAtomic
  refine Prog.Moves.bind (moves_fsOp hrefl hdirectory) fun _ => ?_
  refine (Prog.Moves.onError ?_ (hop _)).bind fun _ => hop _
  refine (hop _).bind fun _ => h.bind fun _ => (hop _).bind fun _ => ?_
  exact moves_fsOp hrefl fun p => hpart p _

end Footprints

end BkkCollector.Storage.PartitionRules
