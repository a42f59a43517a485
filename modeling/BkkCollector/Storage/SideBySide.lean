import BkkCollector.Storage.CompactionRuns
import BkkCollector.Storage.SpoolRuns

/-! # The collector and the maintenance process

The collector stages and flushes, the maintenance process compacts, on the same partitions and
without a lock between them. `sideBySide`: where compaction removes no file that a commit marker
still names, and takes no marker of an unfinished compaction for a missing one, no row is ever lost,
every commit marker can be recovered, and a forced flush and a compaction leave each row in Parquet
exactly once. `not_sideBySide`: a compaction that looked at the spool before a commit began removes
the file the recovery of that commit relies on. -/

namespace BkkCollector.Storage.SideBySide

open BkkCollector.Logic.Program BkkCollector.Logic.Threads BkkCollector.Python.Objects
open BkkCollector.Config
open BkkCollector.Storage.AtomicIo BkkCollector.Storage.ParquetStore
open BkkCollector.Storage.ParquetCompact
open BkkCollector.Storage.PartitionStore BkkCollector.Storage.PartitionInvariant
open BkkCollector.Storage.PartitionRules BkkCollector.Storage.SpoolCommit
open BkkCollector.Storage.SpoolFlush BkkCollector.Storage.SpoolRuns
open BkkCollector.Storage.Compaction BkkCollector.Storage.CompactionRuns

/-! ### The system -/

/-- The threads that work on the partitions. -/
inductive Worker where
  | stage
  | flush
  | compact
  deriving DecidableEq

/-- Their processes. -/
inductive Process where
  | collector
  | maintenance
  deriving DecidableEq

/-- What a call returned. -/
inductive CallResult where
  | spool (result : SpoolResult)
  | compacted (output : Option PartName)

/-- A call of the spool. -/
def spoolCall (p : DiskProg SpoolResult) : DiskProg CallResult := do
  let result ← p
  pure (.spool result)

/-- A call of `compact_partition`. -/
def compactCall (identity : Identity) (key : Key) (minFiles : ℤ) : DiskProg CallResult := do
  let output ← onPartition key (compactPartition identity minFiles)
  pure (.compacted output)

/-- The history of returned calls. -/
def finishShared (result : Except PyError CallResult) (disk : Disk) : Disk :=
  match result with
  | .ok (.spool result) => finishCall (.ok result) disk
  | _ => disk

/-- **Collector and maintenance on one data directory**; `admits` says what may happen to an
operation of a compaction. -/
def sharedRules (digest : List String → String) (identity : Identity)
    (admits : Op → Choice → Partition → Prop) :
    Rules Disk DiskOp Choice PyError CallResult Worker Process where
  starts
    | .stage, disk, p => ∃ key name rows,
      name ∉ stagedNames (partitionAt key disk) ∧ p = spoolCall (stageCall key name rows)
    | .flush, _, p => ∃ force due shouldStop, p = spoolCall (flushCall digest force due shouldStop)
    | .compact, _, p => ∃ key minFiles, p = compactCall identity key minFiles
  admits
    | .compact, op, c, disk => ∀ key o, op = .partition key o → admits o c (partitionAt key disk)
    | _, _, _, _ => True
  finish _ := finishShared
  process
    | .compact => .maintenance
    | _ => .collector
  kill _ disk := disk

/-- A file that is removed is not the output of a commit marker. -/
def SourceFree (op : Op) (c : Choice) (p : Partition) : Prop :=
  c = .ok → ∀ n, op = .unlink (.part n) → ∀ d m, p.commits.lookup d = some m → m.output ≠ n

/-- **A harmless step** of a compaction. -/
def Harmless (op : Op) (c : Choice) (p : Partition) : Prop :=
  SourceFree op c p ∧ MarkerRead op c p

/-! ### What is promised -/

/-- The recovery check of a commit marker: its output is in place, or all its segments are. -/
def Recoverable (p : Partition) : Prop :=
  ∀ d m, p.commits.lookup d = some m → (m.version = 1 ∧ m.sources ≠ []) ∧
    (Valid p m.output m.expectedRows ∨ ∀ n ∈ m.sources, n ∈ p.segments)

/-- A flush that does not wait. -/
def forcedFlush (digest : List String → String) : DiskProg FlushResult :=
  flush digest true true fun _ _ => false

/-- A forced flush returns without an error and leaves nothing pending, and once a compaction has
returned after it each staged row is in Parquet exactly once; `unhindered` is what the compaction
needs to find. -/
def Converges (digest : List String → String) (identity : Identity)
    (unhindered : Partition → Prop) (key : Key) (disk : Disk) : Prop :=
  ∃ result disk', run (forcedFlush digest) disk = (.ok result, disk') ∧ result.errors = [] ∧
    (partitionAt key disk').segments = ∅ ∧ (partitionAt key disk').commits = ∅ ∧
    (unhindered (partitionAt key disk') → ∀ minFiles output p,
      run (compactPartition identity minFiles) (partitionAt key disk') = (.ok output, p) →
      parquetRows p = stagedRows key.1 p)

/-- **What collector and maintenance promise** of a partition of the data directory. -/
structure Together (digest : List String → String) (identity : Identity)
    (unhindered : Partition → Prop) (key : Key) (disk : Disk) : Prop where
  present : stagedRows key.1 (partitionAt key disk) ≤
    spoolRows key.1 (partitionAt key disk) + parquetRows (partitionAt key disk)
  recoverable : Recoverable (partitionAt key disk)
  converges : Converges digest identity unhindered key disk

/-- No temporary file keeps the next compaction away, or no compaction is left half done. -/
def Unhindered (p : Partition) : Prop := p.spoolTemporaries = 0 ∨ AllSpent p

variable {digest : List String → String} {identity : Identity}

theorem recoverable_of_inv {feed : Feed} {base : Multiset (String → Value)} {p : Partition}
    (h : Inv digest feed base p) : Recoverable p := by
  intro d m hm
  obtain ⟨batch, hne, -, -, hmarker, -⟩ := h.spooled.markers d m hm
  refine ⟨?_, ?_⟩
  · rw [hmarker, commitMarker]
    exact ⟨rfl, hne⟩
  · by_cases hv : Valid p m.output m.expectedRows
    · exact Or.inl hv
    · exact Or.inr (h.present hm hv)

/-! ### A flush alone -/

/-- The contract of a flush that has the partitions for itself, and of which no operation fails. -/
def flushContract (digest : List String → String) (key : Key) : Contract Partition Op Choice :=
  partyContract (SpoolInv digest key) (fun _ c _ => c = .ok) Eq WorkerStep (fun _ => rfl)
    fun _ _ _ => Eq.trans

theorem party_flushContract (key : Key) :
    Party (flushContract digest key) (SpoolInv digest key) False WorkerRely WorkerStep :=
  party_alone WorkerRely.refl WorkerStep.refl fun _ _ _ h => by cases h

theorem alone_flushContract : SpoolFlush.Alone digest (flushContract digest) where
  rely key p q hp hr n hn := by
    rw [(hr hp).2]
    exact hn
  step key p q hp hg := ⟨(hg hp).1, (hg hp).2.segments⟩

/-- A flush leaves the marker of a compaction and the directory of the Parquet files alone. -/
def SameCompaction (p q : Partition) : Prop :=
  q.transaction = p.transaction ∧ (p.partsDirectory = true → q.partsDirectory = true)

/-- **A forced flush alone** drains every partition. -/
theorem run_forcedFlush (hdigest : digest.Injective) {disk : Disk}
    (h : Each (SpoolInv digest) disk) :
    ∃ result disk', run (forcedFlush digest) disk = (.ok result, disk') ∧ result.errors = [] ∧
      ∀ key, (SpoolInv digest key (partitionAt key disk') ∧
        SameCompaction (partitionAt key disk) (partitionAt key disk')) ∧
        (partitionAt key disk').segments = ∅ ∧ (partitionAt key disk').commits = ∅ := by
  have hreturns : Returns (forcedFlush digest) := returns_flush true true fun _ _ => false
  obtain ⟨result, disk', hrun⟩ := hreturns disk
  have hinv := stable_each (A := SpoolInv digest) fun key => (party_flushContract key).inv
  have hflush := (ensures_flush party_flushContract hdigest true true (fun _ _ => false) h).track
    (I := Each (SpoolInv digest))
    (R := fun d d' => ∀ key, SameCompaction (partitionAt key d) (partitionAt key d'))
    (fun _ _ _ hst htu key => ⟨(htu key).1.trans (hst key).1, fun hd => (htu key).2 ((hst key).2 hd)⟩)
    (fun d d' hd hr => ⟨hinv d d' hr hd, fun key => by
      rw [(hr key (hd key)).2]
      exact ⟨rfl, fun hd => hd⟩⟩)
    (fun d d' hd hg => ⟨fun key => (hg key (hd key)).1, fun key =>
      ⟨(hg key (hd key)).2.transaction, (hg key (hd key)).2.directory⟩⟩) h
  have hend := hflush.runWith (c := .ok) fun op disk key o _ => rfl
  rw [show (flush digest true true fun _ _ => false).runWith .ok disk = (.ok result, disk') from
    hrun] at hend
  obtain ⟨⟨hI, hflushed⟩, hsame⟩ := hend
  obtain ⟨herrors, hdrained⟩ := (hflushed rfl).resolve_left fun hor => by
    rcases hor with hF | ⟨key, batch, hstop⟩
    · exact hF
    · cases hstop
  refine ⟨result, disk', hrun, herrors, fun key => ⟨⟨hI key, hsame key⟩, ?_, ?_⟩⟩
  · refine keys_eq_nil.mp (List.eq_nil_iff_forall_not_mem.mpr fun n hn => ?_)
    exact (hdrained key List.not_mem_nil).2 alone_flushContract n (AList.mem_keys.mpr hn)
  · refine keys_eq_nil.mp (List.eq_nil_iff_forall_not_mem.mpr fun d hd => ?_)
    exact (hdrained key List.not_mem_nil).1 d (AList.mem_keys.mpr hd)

/-! ### A compaction alone -/

theorem kept_iff {feed : Feed} {base : Multiset (String → Value)} {p : Partition} :
    Kept True digest feed base p ↔ Inv digest feed base p :=
  ⟨fun h => ⟨h.core, h.spooled trivial⟩, fun h => ⟨h.core, fun _ => h.spooled⟩⟩

/-- **A compaction alone**, with nothing pending, leaves each staged row there once. -/
theorem parquetRows_of_run {feed : Feed} {p p' : Partition} {minFiles : ℤ}
    {output : Option PartName} (h : Inv digest feed 0 p) (hsegments : p.segments = ∅)
    (hcommits : p.commits = ∅) (hdirectory : p.transaction ≠ none → p.partsDirectory = true)
    (htemporary : Unhindered p)
    (hrun : run (compactPartition identity minFiles) p = (.ok output, p')) :
    parquetRows p' = stagedRows feed p' := by
  have hrows : ∀ q, Inv digest feed 0 q → q.segments = ∅ → AllSpent q →
      parquetRows q = stagedRows feed q := fun q hq hs hspent => by
    rw [hq.core.rows_eq hs hspent, zero_add]
  rw [run_compactPartition] at hrun
  cases hd : p.partsDirectory with
  | false =>
    -- there is no directory, hence no marker
    rw [hd, Bool.false_and, if_neg Bool.false_ne_true] at hrun
    obtain ⟨-, rfl⟩ := Prod.mk.inj hrun
    refine hrows p h hsegments fun t ht => ?_
    rw [hdirectory (by rw [ht]; exact Option.some_ne_none t)] at hd
    cases hd
  | true =>
    cases hempty : spoolEmpty p with
    | false =>
      rw [hd, hempty, Bool.and_false, if_neg Bool.false_ne_true] at hrun
      obtain ⟨-, rfl⟩ := Prod.mk.inj hrun
      refine hrows p h hsegments (htemporary.resolve_left fun hzero => ?_)
      rw [spoolEmpty_iff.mpr ⟨hsegments, hcommits, hzero⟩] at hempty
      cases hempty
    | true =>
      rw [hd, hempty, Bool.and_true, if_pos rfl] at hrun
      have S := safe_compactionContract True digest feed 0
      have hfound := ensures_compactFound S identity minFiles ⟨kept_iff.mpr h, hcommits, hd⟩
      have htrack := hfound.track (I := Kept True digest feed 0)
        (R := fun q q' => q'.segments = q.segments)
        (fun _ _ _ hst htu => htu.trans hst)
        (fun q q' hq hr => ⟨(hr hq).1, by rw [(hr hq).2]⟩)
        (fun q q' hq hg => ⟨(hg hq).1, (hg hq).2.segments⟩) (kept_iff.mpr h)
      have hend := htrack.runWith (c := .ok) fun op q _ hc => absurd rfl hc
      rw [show (compactFound identity minFiles).runWith .ok p = (.ok output, p') from hrun] at hend
      obtain ⟨⟨⟨hkept, -⟩, hspent⟩, hsame⟩ := hend
      exact hrows p' (kept_iff.mp hkept) (hsame.trans hsegments) hspent

/-! ### The parallel rule -/

/-- What the threads rely on and do. -/
def sharedContract (digest : List String → String) (i : Worker) (key : Key) :
    Contract Partition Op Choice :=
  match i with
  | .stage => ingestContract (SpoolInv digest key) fun _ _ _ => True
  | .flush => workerContract (SpoolInv digest key) fun _ _ _ => True
  | .compact => maintenanceContract (SpoolInv digest key) Harmless

/-- What the calls of a thread leave behind. -/
def SharedPost (digest : List String → String) (i : Worker) (result : CallResult) (disk : Disk) :
    Prop :=
  match i, result with
  | .stage, .spool result => Returned digest .stage result disk
  | .flush, .spool result => Returned digest .flush result disk
  | .compact, .compacted _ => Each (SpoolInv digest) disk
  | _, _ => False

/-- A compaction beside the collector. -/
theorem safe_sharedContract (key : Key) :
    Safe True digest key.1 0 (sharedContract digest .compact key)
      fun p => p.partsDirectory = true where
  inv p q hr hp := kept_iff.mpr (hr (kept_iff.mp hp)).1
  refl p hp := ⟨hp, MaintenanceStep.refl p⟩
  fault _ _ _ _ := trivial
  relies p q hp hr := (hr (kept_iff.mp hp)).2
  allows p q _ hq hstep _ := ⟨kept_iff.mp hq, hstep⟩
  start p _ hdirectory _ := hdirectory
  directory p _ hquiet := hquiet
  stays p q _ hr _ hquiet := hr.directory hquiet
  step p q hstep hquiet := hstep.directory.trans hquiet
  unlink n p _ _ ha d m hm := ha.1 rfl n rfl d m hm
  marker n p t _ ha ht := ha.2 rfl (fun hc => by cases hc) t ht

theorem ensures_compactCall {s : Disk} (h : Each (SpoolInv digest) s) (key : Key) (minFiles : ℤ) :
    Ensures (diskContract (sharedContract digest .compact)) (SharedPost digest .compact)
      (fun _ => Each (SpoolInv digest)) (compactCall identity key minFiles) s := by
  have S : ∀ key, Safe True digest key.1 0 (sharedContract digest .compact key)
      fun p => p.partsDirectory = true := fun key => safe_sharedContract key
  have hinv : ∀ key, (sharedContract digest .compact key).Stable (SpoolInv digest key) :=
    fun key p q hr hp => (hr hp).1
  refine Ensures.bind ((ensures_onPartition (fun key => (S key).refl) hinv
    (ensures_compactPartition (S key) identity minFiles (kept_iff.mpr (h key)))
    fun key' _ => h key').mono (fun _ _ h => h) fun _ t ht =>
      each_of (kept_iff.mp ht.1.1) ht.2 fun _ _ _ h => h) fun output t ht => ?_
  exact Ensures.pure_of (stable_each hinv)
    (each_of (kept_iff.mp ht.1.1) ht.2 fun _ _ _ h => h) fun _ h => h

/-- What holds of the data directory in every run. -/
def SharedState (digest : List String → String) (disk : Disk) : Prop :=
  Each (SpoolInv digest) disk ∧ ∀ key, (partitionAt key disk).transaction ≠ none →
    (partitionAt key disk).partsDirectory = true

theorem sharedState_finishShared {i : Worker} {result : CallResult} {disk : Disk}
    (hI : SharedState digest disk) (h : SharedPost digest i result disk) :
    SharedState digest (finishShared (.ok result) disk) := by
  have hspool : ∀ r : SpoolResult, Finished digest r disk →
      SharedState digest (finishCall (.ok r) disk) := by
    intro r hr
    refine ⟨each_finishCall hr, fun key => ?_⟩
    obtain ⟨returned, hreturned⟩ := partitionAt_finishCall (.ok r) disk key
    show (partitionAt key (finishCall (.ok r) disk)).transaction ≠ none → _
    rw [hreturned]
    exact hI.2 key
  cases result with
  | compacted output => exact hI
  | spool r =>
    cases i with
    | stage => exact hspool r h.1
    | flush => exact hspool r h.1
    | compact => exact h.elim

/-- What the others see of the end of a call. -/
theorem rely_finishShared {i j : Worker} (hij : i ≠ j) {result : CallResult} {disk : Disk}
    (hI : SharedState digest disk) (h : SharedPost digest i result disk) :
    (diskContract (sharedContract digest j)).rely disk (finishShared (.ok result) disk) := by
  have hsame : (diskContract (sharedContract digest j)).rely disk disk :=
    (diskContract (sharedContract digest j)).rely_refl disk
  cases i with
  | compact =>
    cases result with
    | spool r => exact h.elim
    | compacted output => exact hsame
  | flush =>
    cases result with
    | compacted output => exact h.elim
    | spool r =>
      obtain ⟨r', rfl⟩ := h.2 rfl
      exact hsame
  | stage =>
    have hstate := sharedState_finishShared hI h
    cases result with
    | compacted output => exact h.elim
    | spool r =>
      intro key
      obtain ⟨returned, hreturned⟩ := partitionAt_finishCall (.ok r) disk key
      have hinv : SpoolInv digest key (partitionAt key (finishCall (.ok r) disk)) := hstate.1 key
      cases j with
      | stage => exact absurd rfl hij
      | flush =>
        refine fun _ => ⟨hinv, ?_⟩
        show WorkerRely _ (partitionAt key (finishCall (.ok r) disk))
        rw [hreturned]
        exact ⟨rfl, fun _ _ => rfl, fun _ h => h, fun _ _ _ => rfl⟩
      | compact =>
        refine fun _ => ⟨hinv, ?_⟩
        show MaintenanceRely _ (partitionAt key (finishCall (.ok r) disk))
        rw [hreturned]
        exact ⟨rfl, fun h => h, fun _ _ h => h, fun _ h h' => absurd h h'⟩

theorem sound_shared (hdigest : digest.Injective) :
    Sound (sharedRules digest identity Harmless) (SharedState digest)
      (fun i => diskContract (sharedContract digest i)) (SharedPost digest)
      (fun _ _ => Each (SpoolInv digest)) where
  starts i s p hI hp := by
    cases i with
    | stage =>
      obtain ⟨key, name, rows, hfresh, rfl⟩ := hp
      exact Ensures.map (f := CallResult.spool) (ensures_stageCall hI.1 key name rows hfresh)
    | flush =>
      obtain ⟨force, due, shouldStop, rfl⟩ := hp
      exact Ensures.map (f := CallResult.spool)
        (ensures_flushCall hdigest hI.1 force due shouldStop)
    | compact =>
      obtain ⟨key, minFiles, rfl⟩ := hp
      exact ensures_compactCall hI.1 key minFiles
  admits i op c s _ ha := by
    cases i with
    | stage => exact fun _ _ _ => trivial
    | flush => exact fun _ _ _ => trivial
    | compact => exact ha
  op_inv i s t hI hg := by
    refine ⟨fun key => ?_, fun key => ?_⟩
    · cases i <;> exact (hg key (hI.1 key)).1
    · have hdirectory := hI.2 key
      cases i with
      | stage =>
        have hstep := (hg key (hI.1 key)).2
        rw [hstep.transaction, hstep.directory]
        exact hdirectory
      | flush =>
        have hstep := (hg key (hI.1 key)).2
        rw [hstep.transaction]
        exact fun hne => hstep.directory (hdirectory hne)
      | compact =>
        have hstep := (hg key (hI.1 key)).2
        rw [hstep.directory]
        exact fun hne => (hstep.opens hne).elim hdirectory fun hd => hd
  op_rely i j s t hI hij hg := by
    intro key
    have hkey := hI.1 key
    cases i with
    | stage =>
      obtain ⟨hinv, hstep⟩ := hg key hkey
      cases j with
      | stage => exact absurd rfl hij
      | flush => exact fun _ => ⟨hinv, hstep.workerRely⟩
      | compact => exact fun _ => ⟨hinv, hstep.maintenanceRely⟩
    | flush =>
      obtain ⟨hinv, hstep⟩ := hg key hkey
      cases j with
      | stage => exact fun _ => ⟨hinv, hstep.ingestRely⟩
      | flush => exact absurd rfl hij
      | compact => exact fun _ => ⟨hinv, hstep.maintenanceRely⟩
    | compact =>
      obtain ⟨hinv, hstep⟩ := hg key hkey
      cases j with
      | stage => exact fun _ => ⟨hinv, hstep.ingestRely⟩
      | flush => exact fun _ => ⟨hinv, hstep.workerRely⟩
      | compact => exact absurd rfl hij
  returns_inv i a s hI hp := sharedState_finishShared hI hp
  returns_rely i j a s hI hij hp := rely_finishShared hij hI hp
  raises_inv i e s hI _ := hI
  raises_rely i j e s _ _ _ := (diskContract (sharedContract digest j)).rely_refl s
  kill_inv _ _ hI := hI
  kill_rely _ j s _ _ := (diskContract (sharedContract digest j)).rely_refl s

/-! ### Every run -/

theorem SharedState.together (hdigest : digest.Injective) {disk : Disk}
    (h : SharedState digest disk) (key : Key) : Together digest identity Unhindered key disk where
  present := by
    rw [← zero_add (stagedRows _ _)]
    exact (h.1 key).core.le_rows
  recoverable := recoverable_of_inv (h.1 key)
  converges := by
    obtain ⟨result, disk', hrun, herrors, hdrained⟩ := run_forcedFlush hdigest h.1
    obtain ⟨⟨hI, hsame⟩, hsegments, hcommits⟩ := hdrained key
    refine ⟨result, disk', hrun, herrors, hsegments, hcommits,
      fun hunhindered minFiles output p hcompact => ?_⟩
    refine parquetRows_of_run hI hsegments hcommits (fun hne => ?_) hunhindered hcompact
    rw [hsame.1] at hne
    exact hsame.2 (h.2 key hne)

theorem sharedState_empty (digest : List String → String) : SharedState digest ∅ := by
  refine ⟨(spoolState_empty digest).1, fun key hne => absurd ?_ hne⟩
  exact (spoolState_empty digest).2 key

/-- A run of collector and maintenance. -/
abbrev SharedSys := Sys Disk DiskOp Choice PyError CallResult Worker

/-- **Compaction and commits side by side**, in every run whose compactions take harmless steps. -/
theorem sideBySide (hdigest : digest.Injective) {t : SharedSys}
    (ht : Reach (sharedRules digest identity Harmless) (Sys.boot Worker ∅) t) (key : Key) :
    Together digest identity Unhindered key t.state :=
  ((sound_shared hdigest).reach (sharedState_empty digest) ht).1.together hdigest key

/-! ### Runs -/

/-- A call that runs to its end. -/
def ended (p : DiskProg CallResult) (disk : Disk) : Disk :=
  finishShared (p.runWith .ok disk).1 (p.runWith .ok disk).2

/-- The first operations of a call. -/
def begun (n : ℕ) (p : DiskProg CallResult) (disk : Disk) : DiskProg CallResult × Disk :=
  p.after (List.replicate n .ok) disk

def callStage (name id : String) : DiskProg CallResult := spoolCall (sampleStage name id)

def callFlush : DiskProg CallResult := spoolCall sampleFlush

def callCompact : DiskProg CallResult := compactCall sampleIdentity sampleKey 2

section Runs

variable {admits : Op → Choice → Partition → Prop} {s₀ : SharedSys} {disk : Disk}
  {running : Worker → Option (DiskProg CallResult)}

theorem reach_stage
    (h : Reach (sharedRules sampleDigest sampleIdentity admits) s₀ ⟨disk, running⟩)
    (idle : running .stage = none) (name id : String)
    (hname : name ∉ stagedNames (partitionAt sampleKey disk)) :
    Reach (sharedRules sampleDigest sampleIdentity admits) s₀
      ⟨ended (callStage name id) disk, running⟩ :=
  h.call .stage .ok (fun _ _ => trivial) idle (p := callStage name id)
    ⟨sampleKey, name, _, hname, rfl⟩

theorem reach_flush
    (h : Reach (sharedRules sampleDigest sampleIdentity admits) s₀ ⟨disk, running⟩)
    (idle : running .flush = none) :
    Reach (sharedRules sampleDigest sampleIdentity admits) s₀ ⟨ended callFlush disk, running⟩ :=
  h.call .flush .ok (fun _ _ => trivial) idle (p := callFlush) ⟨true, true, _, rfl⟩

/-- A compaction begins. -/
theorem reach_begunCompact
    (h : Reach (sharedRules sampleDigest sampleIdentity admits) s₀ ⟨disk, running⟩)
    (idle : running .compact = none) (n : ℕ)
    (hadmits : Prog.Admitted ((sharedRules sampleDigest sampleIdentity admits).admits .compact)
      (List.replicate n .ok) callCompact disk) :
    Reach (sharedRules sampleDigest sampleIdentity admits) s₀
      ⟨(begun n callCompact disk).2,
        Function.update running .compact (some (begun n callCompact disk).1)⟩ := by
  have hcall : (sharedRules sampleDigest sampleIdentity admits).starts .compact disk callCompact :=
    ⟨sampleKey, 2, rfl⟩
  have hstart := h.tail (Step.start Worker.compact callCompact idle hcall)
  have hrun := Reach.after hstart .compact (List.replicate n .ok) (Function.update_self ..) hadmits
  rwa [Function.update_idem] at hrun

/-- A flush begins and is killed with its process. -/
theorem reach_killedFlush {p : DiskProg CallResult}
    (h : Reach (sharedRules sampleDigest sampleIdentity admits) s₀
      ⟨disk, Function.update (fun _ => none) .compact (some p)⟩) (n : ℕ) :
    Reach (sharedRules sampleDigest sampleIdentity admits) s₀
      ⟨(begun n callFlush disk).2, Function.update (fun _ => none) .compact (some p)⟩ := by
  have hcall : (sharedRules sampleDigest sampleIdentity admits).starts .flush disk callFlush :=
    ⟨true, true, _, rfl⟩
  have hstart := h.tail (Step.start Worker.flush callFlush rfl hcall)
  have hrun := Reach.after hstart .flush (List.replicate n .ok) (Function.update_self ..)
    (Prog.admitted_replicate (fun _ _ => trivial) n _ _)
  have hkilled := hrun.tail (Step.kill .collector)
  refine (congrArg (fun running => Reach _ s₀ ⟨_, running⟩) (funext fun i => ?_)).mp hkilled
  cases i with
  | stage => rfl
  | flush => rfl
  | compact => rfl

end Runs

/-- One poll is committed. -/
def oneCommitted : Disk := ended callFlush (ended (callStage "batch-a.json.gz" "v1") ∅)

theorem reach_oneCommitted (admits : Op → Choice → Partition → Prop) :
    Reach (sharedRules sampleDigest sampleIdentity admits) (Sys.boot Worker ∅)
      ⟨oneCommitted, fun _ => none⟩ :=
  reach_flush (reach_stage Relation.ReflTransGen.refl rfl _ _ (by decide)) rfl

/-- Another poll is committed as well. -/
def twoCommitted : Disk := ended callFlush (ended (callStage "batch-b.json.gz" "v2") oneCommitted)

/-- A compaction looks at the spool. -/
def looked : DiskProg CallResult × Disk := begun 2 callCompact oneCommitted

/-- Another poll is staged, and its commit is killed after the Parquet file is in place. -/
def commitKilled : Disk := (begun 16 callFlush (ended (callStage "batch-b.json.gz" "v2") looked.2)).2

/-- The compaction goes on. -/
def compactedAround : Disk := ended looked.1 commitKilled

theorem reach_compactedAround :
    Reach (sharedRules sampleDigest sampleIdentity fun _ _ _ => True) (Sys.boot Worker ∅)
      ⟨compactedAround, fun _ => none⟩ := by
  have hadmits : ∀ op c s,
      (sharedRules sampleDigest sampleIdentity fun _ _ _ => True).admits .compact op c s :=
    fun _ _ _ _ _ _ => trivial
  have hlooked := reach_begunCompact (reach_oneCommitted _) rfl 2
    (Prog.admitted_of_forall hadmits _ _ _)
  have hkilled := reach_killedFlush
    (reach_stage hlooked rfl "batch-b.json.gz" "v2" (by decide +kernel)) 16
  have hend := Relation.ReflTransGen.trans hkilled
    (reach_runWith (fun op s => hadmits op .ok s) looked.1 (Function.update_self ..))
  rw [Function.update_idem, Function.update_eq_self] at hend
  exact hend

/-- **A compaction around a commit** removes the file that the recovery of the commit looks for: the
commit is made again, and its rows are there twice. -/
theorem not_sideBySide :
    ¬ ∀ t, Reach (sharedRules sampleDigest sampleIdentity fun _ _ _ => True) (Sys.boot Worker ∅) t →
      ∀ key, Together sampleDigest sampleIdentity (fun _ => True) key t.state := by
  intro h
  obtain ⟨result, disk', hrun, -, -, -, hrows⟩ :=
    (h _ reach_compactedAround sampleKey).converges
  have hdisk : disk' = (run (forcedFlush sampleDigest) compactedAround).2 := by rw [hrun]
  rw [hdisk] at hrows
  obtain ⟨output, houtput⟩ : ∃ output, (run (compactPartition sampleIdentity 100)
      (partitionAt sampleKey (run (forcedFlush sampleDigest) compactedAround).2)).1 =
        .ok output := by
    rw [run_compactPartition]
    exact ⟨none, by decide +kernel⟩
  have hequal := congrArg Multiset.card (hrows trivial 100 output _ (Prod.ext houtput rfl))
  revert hequal
  decide +kernel

/-- No partition has a commit marker. -/
def unmarked (disk : Disk) : Bool := disk.entries.all fun e => e.2.commits.keys.isEmpty

theorem commits_of_unmarked {disk : Disk} (h : unmarked disk = true) (key : Key) (d : String) :
    (partitionAt key disk).commits.lookup d = none := by
  rw [partitionAt]
  cases hp : disk.lookup key with
  | none => rfl
  | some p =>
    have hempty := List.all_eq_true.mp h _ (AList.mem_lookup_iff.mp hp)
    rw [List.isEmpty_iff, keys_eq_nil] at hempty
    rw [Option.getD_some, hempty]
    rfl

/-- A compaction of both files. -/
def bothCompacted : DiskProg CallResult × Disk := begun 40 callCompact twoCommitted

theorem reach_bothCompacted :
    Reach (sharedRules sampleDigest sampleIdentity Harmless) (Sys.boot Worker ∅)
      ⟨bothCompacted.2, Function.update (fun _ => none) .compact (some bothCompacted.1)⟩ := by
  have htwo := reach_flush (reach_stage (reach_oneCommitted Harmless) rfl
    "batch-b.json.gz" "v2" (by decide +kernel)) rfl
  have hadmitted : Prog.Admitted (fun _ c disk => c = Choice.ok ∧ unmarked disk = true)
      (List.replicate 40 .ok) callCompact twoCommitted := by decide +kernel
  refine reach_begunCompact htwo rfl 40 (hadmitted.mono fun op c disk hc key o _ => ?_)
  obtain ⟨rfl, hunmarked⟩ := hc
  refine ⟨fun _ n _ d m hm => ?_, fun _ hne => absurd rfl hne⟩
  rw [commits_of_unmarked hunmarked key d] at hm
  cases hm

/-- The rows of both polls are in the compacted file. -/
theorem sideBySide_compacted :
    (partitionAt sampleKey bothCompacted.2).parts.keys = [.compacted "two"] ∧
      Together sampleDigest sampleIdentity Unhindered sampleKey bothCompacted.2 :=
  ⟨by decide +kernel, sideBySide sampleDigest_injective reach_bothCompacted sampleKey⟩

end BkkCollector.Storage.SideBySide
