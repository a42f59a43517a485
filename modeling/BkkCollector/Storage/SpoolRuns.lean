import BkkCollector.Logic.Threads
import BkkCollector.Storage.SpoolFlush

/-! # Runs of the spool

The spool over one data directory: one thread stages, one flushes, any of their file operations may
fail, and the process may be killed between any two of them and start again. `exactlyOnce`: in every
state of every run each staged row is in a pending segment or in a Parquet file, none is in two
Parquet files, and a partition without pending segments has exactly the staged rows. -/

namespace BkkCollector.Storage.SpoolRuns

open BkkCollector.Logic.Program BkkCollector.Logic.Threads BkkCollector.Python.Objects
open BkkCollector.Config
open BkkCollector.Storage.AtomicIo BkkCollector.Storage.ParquetStore
open BkkCollector.Storage.PartitionStore BkkCollector.Storage.PartitionInvariant
open BkkCollector.Storage.PartitionRules BkkCollector.Storage.SpoolCommit
open BkkCollector.Storage.SpoolFlush

/-! ### The system -/

/-- The threads of the collector that work on the spool. -/
inductive SpoolThread where
  | stage
  | flush
  deriving DecidableEq

/-- What a call returned. -/
inductive SpoolResult where
  | staged (key : Key) (segment : Option Segment)
  | flushed (result : FlushResult)

/-- A call of `stage`, for the segment of a fresh name. -/
def stageCall (key : Key) (name : String) (rows : List Row) : DiskProg SpoolResult := do
  let path ← onPartition key (stage name rows)
  pure (.staged key (path.map fun name => ⟨name, rows⟩))

/-- A call of `flush`. -/
def flushCall (digest : List String → String) (force due : Bool)
    (shouldStop : Key → List String → Bool) : DiskProg SpoolResult := do
  let result ← flush digest force due shouldStop
  pure (.flushed result)

/-- The segment of a call that returned. -/
def recordReturn (segment : Segment) (p : Partition) : Partition :=
  { p with returned := p.returned ++ [segment] }

/-- The history of returned calls. -/
def finishCall (result : Except PyError SpoolResult) (disk : Disk) : Disk :=
  match result with
  | .ok (.staged key (some segment)) => modifyAt key (recordReturn segment) disk
  | _ => disk

/-- **The spool on one data directory.** Names of segments are fresh, since they end in a random
identifier. -/
def spoolRules (digest : List String → String) :
    Rules Disk DiskOp Choice PyError SpoolResult SpoolThread Unit where
  starts
    | .stage, disk, p => ∃ key name rows,
      name ∉ stagedNames (partitionAt key disk) ∧ p = stageCall key name rows
    | .flush, _, p => ∃ force due shouldStop, p = flushCall digest force due shouldStop
  admits _ _ _ _ := True
  finish _ := finishCall
  process _ := ()
  kill _ disk := disk

/-! ### Staging -/

section Stage

variable {digest : List String → String} {feed : Feed} {base : Multiset (String → Value)}
  {C : Contract Partition Op Choice} {F : Prop} {p : Partition} {name : String} {rows : List Row}

/-- **A stage call that returns a path has its segment in place.** -/
theorem ensures_stage (W : Party C (Inv digest feed base) F IngestRely IngestStep)
    (h : Inv digest feed base p) (hfresh : name ∉ stagedNames p) :
    Ensures C
      (fun path t => Inv digest feed base t ∧ ∀ n, path = some n →
        ⟨n, rows⟩ ∈ t.staged ∧ n ∉ t.returned.map Segment.name)
      (Raised (Inv digest feed base) F) (stage name rows) p := by
  have hP : C.Stable fun t => Inv digest feed base t ∧ name ∉ stagedNames t :=
    W.stable fun t u _ hr ht => by
      rw [stagedNames, hr.staged]
      exact ht
  have hQ : C.Stable fun t => Inv digest feed base t ∧
      (⟨name, rows⟩ ∈ t.staged ∧ name ∉ t.returned.map Segment.name) :=
    W.stable fun t u _ hr ht => by
      rw [hr.staged, hr.returned]
      exact ht
  unfold stage
  split
  · exact Ensures.pure_of W.inv h fun t ht => ⟨ht, fun n hn => by cases hn⟩
  · have hfiles : ∀ (t : Partition) (n : ℕ), Inv digest feed base t →
        Inv digest feed base { t with spoolTemporaries := n } :=
      fun t n ht => ht.files n t.partsDirectory
    have hstep : ∀ (t : Partition) (n : ℕ), IngestStep t { t with spoolTemporaries := n } :=
      fun t n => ⟨rfl, rfl, rfl, rfl, fun _ _ => rfl, fun _ h => h⟩
    refine (W.skip hP (fun t ht => ht.1) ⟨h, hfresh⟩).bind fun _ t ht => ?_
    refine (W.atomicWrite hP hQ (fun t ht => ht.1) (fun t ht => ht.1) (fun t ht => ?_)
      (fun t ht => ?_) (fun t ht _ => ?_) ht).bind fun _ t ht => ?_
    · have hI := hfiles t (t.spoolTemporaries + 1) ht.1
      exact ⟨W.allows t _ ht.1 hI (hstep t _), hI, ht.2⟩
    · have hI := hfiles t (t.spoolTemporaries - 1) ht
      exact ⟨W.allows t _ ht hI (hstep t _), hI⟩
    · obtain ⟨hI, hn⟩ := ht
      have hI' : Inv digest feed base (withSegment t name rows) :=
        ⟨hI.core.stage hI.spooled hn, hI.spooled.stage hn⟩
      have hI'' := hfiles _ (t.spoolTemporaries - 1) hI'
      have hne : ∀ n ∈ stagedNames t, n ≠ name := fun n hn' heq => hn (heq ▸ hn')
      refine ⟨W.allows t _ hI hI'' ⟨rfl, rfl, rfl, rfl, fun n hn' => AList.lookup_insert_ne (hne n hn'),
        fun n hn' => ?_⟩, hI'', List.mem_append_right _ (List.mem_singleton.mpr rfl), fun hr => ?_⟩
      · have hnames : stagedNames (withSegment t name rows) = stagedNames t ++ [name] :=
          stagedNames_withSegment
        exact hnames ▸ List.mem_append_left _ hn'
      · obtain ⟨segment, hs, rfl⟩ := List.mem_map.mp hr
        exact hn (List.mem_map_of_mem (hI.spooled.returned hs))
    · exact Ensures.pure_of hQ ht fun u hu => ⟨hu.1, fun n hn => by
        cases hn
        exact hu.2⟩

/-- The history of the calls that returned. -/
theorem inv_recordReturn (h : Inv digest feed base p) {segment : Segment}
    (hmem : segment ∈ p.staged) (hnew : segment.name ∉ p.returned.map Segment.name) :
    Inv digest feed base (recordReturn segment p) where
  core := ⟨h.core.wf, h.core.visible, h.core.commits, h.core.transaction, h.core.aligned⟩
  spooled :=
    { markers := h.spooled.markers
      segments := h.spooled.segments
      known := h.spooled.known
      staged := h.spooled.staged
      returned := fun s hs => by
        rcases List.mem_append.mp hs with hs | hs
        · exact h.spooled.returned hs
        · rwa [List.mem_singleton.mp hs]
      returnedNodup := by
        rw [recordReturn, List.map_append, List.nodup_append]
        refine ⟨h.spooled.returnedNodup, List.nodup_singleton _, fun x hx y hy hxy => hnew ?_⟩
        rwa [← List.mem_singleton.mp hy, ← hxy] }

end Stage

/-! ### The parallel rule -/

/-- What the threads rely on and do. -/
def spoolContract (digest : List String → String) (i : SpoolThread) (key : Key) :
    Contract Partition Op Choice :=
  match i with
  | .stage => ingestContract (SpoolInv digest key) fun _ _ _ => True
  | .flush => workerContract (SpoolInv digest key) fun _ _ _ => True

/-- What a finished call leaves behind. -/
def Finished (digest : List String → String) (result : SpoolResult) (disk : Disk) : Prop :=
  Each (SpoolInv digest) disk ∧ ∀ key segment, result = .staged key (some segment) →
    segment ∈ (partitionAt key disk).staged ∧
      segment.name ∉ (partitionAt key disk).returned.map Segment.name

/-- What the calls of a thread leave behind; a flush returns no path. -/
def Returned (digest : List String → String) (i : SpoolThread) (result : SpoolResult)
    (disk : Disk) : Prop :=
  Finished digest result disk ∧ (i = .flush → ∃ r, result = .flushed r)

variable {digest : List String → String}

theorem ensures_stageCall {s : Disk} (h : Each (SpoolInv digest) s) (key : Key) (name : String)
    (rows : List Row) (hfresh : name ∉ stagedNames (partitionAt key s)) :
    Ensures (diskContract (spoolContract digest .stage)) (Returned digest .stage)
      (fun _ => Each (SpoolInv digest)) (stageCall key name rows) s := by
  have W : ∀ key, Party (spoolContract digest .stage key) (SpoolInv digest key) True
      IngestRely IngestStep :=
    fun key => party_ingest fun _ _ _ _ => trivial
  have hinv : ∀ key, (spoolContract digest .stage key).Stable (SpoolInv digest key) :=
    fun key => (W key).inv
  refine Ensures.bind ((ensures_onPartition (fun key => (W key).refl) hinv
    (ensures_stage (W key) (h key) hfresh) fun key' _ => h key').mono (fun _ _ h => h)
    fun _ t ht => each_of ht.1.1 ht.2 fun _ _ _ h => h) fun path t ht => ?_
  have hstable : (diskContract (spoolContract digest .stage)).Stable fun t =>
      Each (SpoolInv digest) t ∧ ∀ n, path = some n → ⟨n, rows⟩ ∈ (partitionAt key t).staged ∧
        n ∉ (partitionAt key t).returned.map Segment.name := by
    refine fun t u hr ht => ⟨stable_each hinv t u hr ht.1, fun n hn => ?_⟩
    have hr' := (W key).relies _ _ (ht.1 key) (hr key)
    rw [hr'.staged, hr'.returned]
    exact ht.2 n hn
  refine Ensures.pure_of hstable ⟨each_of ht.1.1 ht.2 fun _ _ _ h => h, ht.1.2⟩
    fun u hu => ⟨⟨hu.1, fun key' segment heq => ?_⟩, fun h => by cases h⟩
  simp only [SpoolResult.staged.injEq] at heq
  obtain ⟨rfl, hsegment⟩ := heq
  obtain ⟨n, hn, rfl⟩ := Option.map_eq_some_iff.mp hsegment
  exact hu.2 n hn

theorem ensures_flushCall (hdigest : digest.Injective) {s : Disk} (h : Each (SpoolInv digest) s)
    (force due : Bool) (shouldStop : Key → List String → Bool) :
    Ensures (diskContract (spoolContract digest .flush)) (Returned digest .flush)
      (fun _ => Each (SpoolInv digest)) (flushCall digest force due shouldStop) s := by
  have W : ∀ key, Party (spoolContract digest .flush key) (SpoolInv digest key) True
      WorkerRely WorkerStep :=
    fun key => party_worker fun _ _ _ _ => trivial
  refine Ensures.bind (ensures_flush W hdigest force due shouldStop h) fun result t ht => ?_
  exact Ensures.pure_of (stable_each fun key => (W key).inv) ht.1
    fun u hu => ⟨⟨hu, fun key segment heq => by cases heq⟩, fun _ => ⟨result, rfl⟩⟩

/-- Recording a return keeps the partitions in order. -/
theorem each_finishCall {result : SpoolResult} {disk : Disk} (h : Finished digest result disk) :
    Each (SpoolInv digest) (finishCall (.ok result) disk) := by
  rcases result with ⟨key, - | segment⟩ | result
  · exact h.1
  · obtain ⟨hmem, hnew⟩ := h.2 key segment rfl
    intro key'
    by_cases hk : key' = key
    · subst hk
      rw [finishCall, components.same]
      exact inv_recordReturn (h.1 key') hmem hnew
    · rw [finishCall, components.other key key' _ _ hk]
      exact h.1 key'
  · exact h.1

/-- The end of a call changes nothing but the history. -/
theorem partitionAt_finishCall (result : Except PyError SpoolResult) (disk : Disk) (key : Key) :
    ∃ returned, partitionAt key (finishCall result disk) =
      { partitionAt key disk with returned := returned } := by
  rcases result with e | ⟨key', - | segment⟩ | result
  · exact ⟨_, rfl⟩
  · exact ⟨_, rfl⟩
  · by_cases hk : key = key'
    · subst hk
      exact ⟨_, components.same key _ _⟩
    · exact ⟨_, components.other key' key _ _ hk⟩
  · exact ⟨_, rfl⟩

/-- What holds of the data directory in every run: no compaction was there. -/
def SpoolState (digest : List String → String) (disk : Disk) : Prop :=
  Each (SpoolInv digest) disk ∧ Each (fun _ p => p.transaction = none) disk

theorem sound (hdigest : digest.Injective) :
    Sound (spoolRules digest) (SpoolState digest) (fun i => diskContract (spoolContract digest i))
      (Returned digest) (fun _ _ => Each (SpoolInv digest)) where
  starts i s p hI hp := by
    cases i with
    | stage =>
      obtain ⟨key, name, rows, hfresh, rfl⟩ := hp
      exact ensures_stageCall hI.1 key name rows hfresh
    | flush =>
      obtain ⟨force, due, shouldStop, rfl⟩ := hp
      exact ensures_flushCall hdigest hI.1 force due shouldStop
  admits i op c s _ _ := by
    intro key o _
    cases i <;> exact trivial
  op_inv i s t hI hg := by
    refine ⟨fun key => ?_, fun key => ?_⟩
    · cases i <;> exact (hg key (hI.1 key)).1
    · have hnone := hI.2 key
      cases i with
      | stage => exact (hg key (hI.1 key)).2.transaction.trans hnone
      | flush => exact (hg key (hI.1 key)).2.transaction.trans hnone
  op_rely i j s t hI hij hg := by
    intro key
    cases i with
    | stage =>
      cases j with
      | stage => exact absurd rfl hij
      | flush => exact fun hkey => ⟨(hg key hkey).1, (hg key hkey).2.workerRely⟩
    | flush =>
      cases j with
      | stage => exact fun hkey => ⟨(hg key hkey).1, (hg key hkey).2.ingestRely⟩
      | flush => exact absurd rfl hij
  returns_inv i a s hI hp := by
    refine ⟨each_finishCall hp.1, fun key => ?_⟩
    obtain ⟨returned, hreturned⟩ := partitionAt_finishCall (.ok a) s key
    exact (congrArg Partition.transaction hreturned).trans (hI.2 key)
  returns_rely i j a s _ hij hp := by
    cases j with
    | stage =>
      -- the other thread flushes, which leaves the history alone
      have hi : i = .flush := by
        cases i with
        | stage => exact absurd rfl hij
        | flush => rfl
      obtain ⟨r, rfl⟩ := hp.2 hi
      exact (diskContract (spoolContract digest .stage)).rely_refl s
    | flush =>
      intro key _
      refine ⟨each_finishCall hp.1 key, ?_⟩
      obtain ⟨returned, hreturned⟩ := partitionAt_finishCall (.ok a) s key
      change WorkerRely _ (partitionAt key (finishCall (.ok a) s))
      rw [hreturned]
      exact ⟨rfl, fun _ _ => rfl, fun _ h => h, fun _ _ _ => rfl⟩
  raises_inv i e s hI _ := hI
  raises_rely i j e s _ _ _ := (diskContract (spoolContract digest j)).rely_refl s
  kill_inv _ _ hI := hI
  kill_rely _ j s _ _ := (diskContract (spoolContract digest j)).rely_refl s

/-! ### Exactly once -/

/-- **What the spool promises** of a partition: of the segments that were renamed into place those
of calls that returned are a part; each of their rows is in a pending segment or a Parquet file, none
is in Parquet twice, and once nothing is pending Parquet has just these rows. -/
structure ExactlyOnce (feed : Feed) (p : Partition) : Prop where
  returned : p.returned.Subperm p.staged
  present : stagedRows feed p ≤ spoolRows feed p + parquetRows p
  once : parquetRows p ≤ stagedRows feed p
  committed : p.segments = ∅ → parquetRows p = stagedRows feed p

theorem SpoolState.promise {disk : Disk} (h : SpoolState digest disk) (key : Key) :
    ExactlyOnce key.1 (partitionAt key disk) where
  returned := (h.1 key).spooled.returnedNodup.of_map.subperm (h.1 key).spooled.returned
  present := by
    rw [← zero_add (stagedRows _ _)]
    exact (h.1 key).core.le_rows
  once := by
    rw [← zero_add (stagedRows _ _)]
    exact (h.1 key).core.parquetRows_le (h.2 key)
  committed hempty := by
    rw [← zero_add (stagedRows _ _)]
    exact (h.1 key).core.rows_eq hempty fun t ht => by
      rw [h.2 key] at ht
      cases ht

theorem spoolState_empty (digest : List String → String) : SpoolState digest ∅ := by
  refine ⟨fun key => ?_, fun key => ?_⟩
  · rw [partitionAt_of_not_mem (AList.notMem_empty key)]
    exact inv_empty digest key.1
  · rw [partitionAt_of_not_mem (AList.notMem_empty key)]

/-- **Exactly-once commits**: in every run of the spool, with kills and failing file operations. -/
theorem exactlyOnce (hdigest : digest.Injective)
    {t : Sys Disk DiskOp Choice PyError SpoolResult SpoolThread}
    (ht : Reach (spoolRules digest) (Sys.boot SpoolThread ∅) t) (key : Key) :
    ExactlyOnce key.1 (partitionAt key t.state) :=
  ((sound hdigest).reach (spoolState_empty digest) ht).1.promise key

/-! ### A run -/

/-- The letters of a name, each after a tag. -/
def tagged (name : List Char) : List Char := name.flatMap fun c => ['c', c]

/-- A digest that is free of collisions. -/
def sampleDigest (names : List String) : String :=
  String.ofList (names.flatMap fun name => 'n' :: tagged name.toList)

theorem tagged_append_inj {l l' : List Char} {r r' : List Char}
    (hr : r.head? ≠ some 'c') (hr' : r'.head? ≠ some 'c')
    (h : tagged l ++ r = tagged l' ++ r') : l = l' ∧ r = r' := by
  induction l generalizing l' with
  | nil =>
    cases l' with
    | nil => exact ⟨rfl, h⟩
    | cons c l' =>
      refine absurd ?_ hr
      rw [show r = 'c' :: c :: (tagged l' ++ r') from h]
      rfl
  | cons c l ih =>
    cases l' with
    | nil =>
      refine absurd ?_ hr'
      rw [show r' = 'c' :: c :: (tagged l ++ r) from h.symm]
      rfl
    | cons c' l' =>
      simp only [tagged, List.flatMap_cons, List.cons_append, List.nil_append, List.cons.injEq,
        true_and] at h
      obtain ⟨rfl, h⟩ := h
      obtain ⟨rfl, rfl⟩ := ih h
      exact ⟨rfl, rfl⟩

theorem sampleDigest_injective : sampleDigest.Injective := by
  intro names
  induction names with
  | nil =>
    intro names' h
    cases names' with
    | nil => rfl
    | cons name names' => exact absurd (congrArg String.toList h) (by simp [sampleDigest])
  | cons name names ih =>
    intro names' h
    cases names' with
    | nil => exact absurd (congrArg String.toList h) (by simp [sampleDigest])
    | cons name' names' =>
      have hhead : ∀ l : List String,
          (l.flatMap fun name => 'n' :: tagged name.toList).head? ≠ some 'c' := by
        intro l
        cases l <;> simp
      have hlist := congrArg String.toList h
      simp only [sampleDigest, String.toList_ofList, List.flatMap_cons, List.cons_append,
        List.cons.injEq, true_and] at hlist
      obtain ⟨hname, hrest⟩ := tagged_append_inj (hhead names) (hhead names') hlist
      rw [String.toList_inj.mp hname, ih (congrArg String.ofList hrest)]

/-- A call that runs to its end. -/
def finished (p : DiskProg SpoolResult) (disk : Disk) : Disk :=
  finishCall (p.runWith .ok disk).1 (p.runWith .ok disk).2

def sampleKey : Key := (.vehiclepositions, "2026-01-02")

def sampleStage (name id : String) : DiskProg SpoolResult :=
  stageCall sampleKey name [[("entity_id", .str id)]]

def sampleFlush : DiskProg SpoolResult := flushCall sampleDigest true true fun _ _ => false

/-- Two polls are staged. -/
def sampleStaged : Disk :=
  finished (sampleStage "batch-b.json.gz" "v2") (finished (sampleStage "batch-a.json.gz" "v1") ∅)

/-- The flush is killed after the first of their segments is removed. -/
def sampleKilled : Disk := (sampleFlush.after (List.replicate 21 .ok) sampleStaged).2

/-- After the restart another flush goes through. -/
def sampleFlushed : Disk := finished sampleFlush sampleKilled

theorem starts_sampleStage {name id : String} {disk : Disk}
    (h : name ∉ stagedNames (partitionAt sampleKey disk)) :
    (spoolRules sampleDigest).starts .stage disk (sampleStage name id) :=
  ⟨sampleKey, name, _, h, rfl⟩

theorem starts_sampleFlush (disk : Disk) :
    (spoolRules sampleDigest).starts .flush disk sampleFlush :=
  ⟨true, true, _, rfl⟩

theorem reach_sampleFlushed :
    Reach (spoolRules sampleDigest) (Sys.boot SpoolThread ∅) ⟨sampleFlushed, fun _ => none⟩ := by
  have hadmits : ∀ i op (s : Disk), (spoolRules sampleDigest).admits i op .ok s :=
    fun _ _ _ => trivial
  have hstart : Reach (spoolRules sampleDigest) (Sys.boot SpoolThread ∅) ⟨∅, fun _ => none⟩ :=
    Relation.ReflTransGen.refl
  have hone : Reach (spoolRules sampleDigest) (Sys.boot SpoolThread ∅)
      ⟨finished (sampleStage "batch-a.json.gz" "v1") ∅, fun _ => none⟩ :=
    hstart.call .stage .ok (hadmits _) rfl (starts_sampleStage (by decide))
  have hstaged : Reach (spoolRules sampleDigest) (Sys.boot SpoolThread ∅)
      ⟨sampleStaged, fun _ => none⟩ :=
    hone.call .stage .ok (hadmits _) rfl (starts_sampleStage (by decide +kernel))
  have hrunning := Reach.after (hstaged.tail (Step.start .flush sampleFlush rfl (starts_sampleFlush _))) .flush
    (List.replicate 21 .ok) (Function.update_self ..)
    (Prog.admitted_of_forall (fun _ _ _ => trivial) _ _ _)
  have hkilled : Reach (spoolRules sampleDigest) (Sys.boot SpoolThread ∅)
      ⟨sampleKilled, fun _ => none⟩ :=
    hrunning.tail (Step.kill ())
  exact hkilled.call .flush .ok (hadmits _) rfl (starts_sampleFlush _)

/-- The rows of both polls are in Parquet, once. -/
theorem exactlyOnce_killedFlush :
    (partitionAt sampleKey sampleKilled).segments.keys = ["batch-b.json.gz"] ∧
      (partitionAt sampleKey sampleFlushed).segments.keys = [] ∧
      ExactlyOnce .vehiclepositions (partitionAt sampleKey sampleFlushed) :=
  ⟨by decide +kernel, by decide +kernel,
    exactlyOnce sampleDigest_injective reach_sampleFlushed sampleKey⟩

end BkkCollector.Storage.SpoolRuns
