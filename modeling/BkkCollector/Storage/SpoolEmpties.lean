import BkkCollector.Logic.Holding
import BkkCollector.Storage.ParquetCompact
import BkkCollector.Storage.SpoolRuns

/-! # Spool partitions that empty again

Compaction and the pruner wait until the spool directory of a feed and a date has no entry at all.
Segments and commit markers go with the flush that reports no error. A temporary file goes with the
call that made it, and with nothing else: `emptied` is about the runs in which no call is killed
while there is one and none fails to remove its own. `not_emptied`: one that a killed call leaves
behind is there for good. -/

namespace BkkCollector.Storage.SpoolEmpties

open BkkCollector.Logic.Program BkkCollector.Logic.Threads BkkCollector.Logic.Holding
open BkkCollector.Python.Objects BkkCollector.Config
open BkkCollector.Storage.AtomicIo BkkCollector.Storage.ParquetStore
open BkkCollector.Storage.ParquetCompact
open BkkCollector.Storage.PartitionRules BkkCollector.Storage.SpoolFlush
open BkkCollector.Storage.SpoolRuns

/-! ### Temporary files -/

/-- The temporary files in the spool directory of a partition. -/
def temporaries (key : Key) (disk : Disk) : ℕ := (partitionAt key disk).spoolTemporaries

/-- A removal of a temporary file takes away what it would if it went through: it does not fail, or
there is none. -/
def Removing (op : Op) (eff : Choice → Partition → Partition) (c : Choice) (p : Partition) : Prop :=
  ∀ file, op = .write .unlinkTemporary file →
    (eff c p).spoolTemporaries = (eff .ok p).spoolTemporaries

/-- `Removing`, in the partition of a key. -/
def RemovingAt (key : Key) (op : DiskOp) (eff : Choice → Disk → Disk) (c : Choice) (disk : Disk) :
    Prop :=
  ∀ file, op = .partition key (.write .unlinkTemporary file) →
    temporaries key (eff c disk) = temporaries key (eff .ok disk)

section Write

variable {σ ω : Type} {count : σ → ℕ} {ops : ω → (Choice → σ → σ) → Choice → σ → Prop}

theorem holds_fsOp {op : ω} {eff : σ → σ} {m n : ℕ}
    (h : ∀ s, n ≤ count s → count (eff s) + n = count s + m) :
    Holds count ops m n n (fsOp op eff : FsProg σ ω Unit) := by
  intro c s hn _
  cases c with
  | ok => exact ⟨m, h s hn, rfl⟩
  | fault k => exact ⟨n, rfl, rfl⟩

theorem holds_skip {op : ω} {n : ℕ} : Holds count ops n n n (fsOp op id : FsProg σ ω Unit) :=
  holds_fsOp fun _ _ => rfl

/-- **Atomic replacement** gives its temporary file back. -/
theorem holds_atomicWriteBytes {label : WriteOp → ω} {add drop install : σ → σ}
    (hadd : ∀ s, count (add s) = count s + 1) (hdrop : ∀ s, count (drop s) = count s - 1)
    (hinstall : ∀ s, count (install s) = count s)
    (hops : ∀ eff c s, ops (label .unlinkTemporary) eff c s →
      count (eff c s) = count (eff .ok s)) :
    Holds count ops 0 0 0 (atomicWriteBytes label add drop install) := by
  have hopen : Holds count ops 1 0 0 (fsOp (label .openTemporary) add) :=
    holds_fsOp fun s _ => by rw [hadd]
  have hreplace : Holds count ops 0 1 1
      (fsOp (label .replace) fun s => drop (install s) : FsProg σ ω Unit) :=
    holds_fsOp fun s hn => by
      rw [hdrop, hinstall]
      omega
  -- where the block raises, the temporary file is there and its removal goes through
  have hcleanup : Holds count ops 0 0 1 (fsOp (label .unlinkTemporary) drop) := by
    intro c s hn hc
    have hsame := hops _ c s hc
    refine ⟨0, ?_, ?_⟩
    · rw [hsame]
      show count (drop s) + 1 = count s + 0
      rw [hdrop]
      omega
    · cases c with
      | ok => exact rfl
      | fault k => exact rfl
  unfold atomicWriteBytes
  refine holds_skip.bind fun _ => ?_
  refine (hopen.onError holds_skip).bind fun _ => ?_
  refine (Holds.onError ?_ hcleanup).bind fun _ => holds_skip
  exact holds_skip.bind fun _ => hreplace

end Write

/-- The programs of the spool, as far as temporary files go. -/
abbrev Balance (n : ℕ) {α : Type} (p : PartitionProg α) : Prop :=
  Holds Partition.spoolTemporaries Removing n n n p

/-- No temporary file comes or goes. -/
def SameTemporaries (s t : Partition) : Prop := t.spoolTemporaries = s.spoolTemporaries

theorem SameTemporaries.refl (s : Partition) : SameTemporaries s s := rfl

/-- A program that leaves the temporary files alone. -/
abbrev Steady {α : Type} (p : PartitionProg α) : Prop := p.Moves SameTemporaries

theorem balance_write {file : File} {install : Partition → Partition}
    (h : ∀ p, (install p).spoolTemporaries = p.spoolTemporaries) :
    Balance 0 (atomicWriteBytes (.write · file) addTemporary dropTemporary install) :=
  holds_atomicWriteBytes (fun _ => rfl) (fun _ => rfl) h fun _ _ _ hc => hc file rfl

theorem steady_unlinkSegment (name : String) : Steady (unlinkSegment name) :=
  moves_unlink SameTemporaries.refl fun _ => rfl

theorem steady_unlinkCommit (d : String) : Steady (unlinkCommit d) :=
  moves_unlink SameTemporaries.refl fun _ => rfl

theorem balance_stage (name : String) (rows : List Row) : Balance 0 (stage name rows) := by
  unfold stage
  split
  · exact rfl
  · refine holds_skip.bind fun _ => ?_
    refine Holds.bind (balance_write ?_) fun _ => rfl
    exact fun _ => rfl

theorem steady_recoverCommit (d : String) : Steady (recoverCommit d) := by
  refine (moves_readJson SameTemporaries.refl).bind fun transaction => ?_
  cases transaction with
  | none => exact trivial
  | some marker =>
    dsimp only
    split
    · exact trivial
    · refine (moves_validOutput SameTemporaries.refl _ _).bind fun b => ?_
      cases b with
      | true =>
        exact (moves_unlinkSegments (fun name => moves_ignoreMissing (steady_unlinkSegment name))
          _).bind fun _ => steady_unlinkCommit d
      | false =>
        refine (moves_allPresent SameTemporaries.refl _).bind fun present => ?_
        cases present with
        | true => exact steady_unlinkCommit d
        | false => exact trivial

theorem balance_commitSegments (digest : List String → String) (feed : Feed)
    (segments : List String) : Balance 0 (commitSegments digest feed segments) := by
  have hread : Steady (readSegments segments) := moves_readSegments SameTemporaries.refl segments
  refine (Holds.of_moves hread).bind fun rows => ?_
  refine Holds.bind (balance_write ?_) fun _ => ?_
  · exact fun _ => rfl
  have hfinish : ∀ output n, Steady (do
      if (← parquetRowCount output) ≠ n then
        throw ⟨.osError, "row-count validation failed for " ++ output.text⟩
      unlinkSegments unlinkSegment segments
      unlinkCommit (digest segments)
      pure (output, n) : PartitionProg (PartName × ℕ)) := by
    intro output n
    refine (moves_fsRead SameTemporaries.refl).bind fun count => ?_
    split
    · exact trivial
    · exact (moves_unlinkSegments steady_unlinkSegment _).bind fun _ =>
        (steady_unlinkCommit _).bind fun _ => trivial
  refine Holds.of_moves ((moves_validOutput SameTemporaries.refl _ _).bind fun b => ?_)
  cases b with
  | true => exact hfinish _ _
  | false =>
    exact (moves_writeParquetAtomic SameTemporaries.refl feed hread (fun _ => rfl)
      fun _ _ => rfl).bind fun _ => hfinish _ _

/-! ### Calls -/

/-- A program on one partition leaves the temporary files of the others alone. -/
theorem holds_onPartition {α : Type} {p : PartitionProg α} (h : Balance 0 p) (key key' : Key) :
    Holds (temporaries key) (RemovingAt key) 0 0 0 (onPartition key' p) := by
  by_cases hkey : key' = key
  · subst hkey
    refine Holds.zoom (components.same key') (fun op eff c disk hc file hop => ?_) h
    have hsame := hc file (by rw [hop])
    rw [temporaries, temporaries, components.same, components.same] at hsame
    exact hsame
  · refine Holds.of_moves (Prog.Moves.zoom (fun f disk _ => ?_) (Prog.moves_true p))
    rw [temporaries, components.other key' key f disk (Ne.symm hkey), temporaries]

section Flush

variable {digest : List String → String} {shouldStop : Key → List String → Bool} {key : Key}

/-- A program on the data directory that gives its temporary files back. -/
abbrev BalanceAt (key : Key) {α : Type} (p : DiskProg α) : Prop :=
  Holds (temporaries key) (RemovingAt key) 0 0 0 p

theorem balanceAt_of_steady {α : Type} {p : DiskProg α}
    (h : p.Moves (Pointwise SameTemporaries)) :
    BalanceAt key p :=
  Holds.of_moves (h.mono fun _ _ h => h key)

theorem balanceAt_list {list : Key → PartitionProg (List String)}
    (h : ∀ key, Steady (list key)) (keys : List Key) : BalanceAt key (listEach list keys) :=
  balanceAt_of_steady (moves_listEach SameTemporaries.refl h keys)

theorem balanceAt_recoverMarkers (key' : Key) (digests : List String)
    (acc : FlushResult × List Key) : BalanceAt key (recoverMarkers key' digests acc) := by
  induction digests generalizing acc with
  | nil => exact rfl
  | cons digest digests ih =>
    unfold recoverMarkers
    refine Holds.bind (holds_onPartition (Holds.of_moves (steady_recoverCommit digest)) key
      key').attempt fun r => ?_
    cases r with
    | ok _ => exact ih _
    | error e => exact ih _

theorem balanceAt_recoverCommits (groups : List (Key × List String))
    (acc : FlushResult × List Key) : BalanceAt key (recoverCommits groups acc) := by
  induction groups generalizing acc with
  | nil => exact rfl
  | cons group groups ih =>
    unfold recoverCommits
    exact (balanceAt_recoverMarkers group.1 group.2 acc).bind fun acc => ih acc

theorem balanceAt_flushBatches (key' : Key) (batches : List (List String))
    (result : FlushResult) :
    BalanceAt key (flushBatches digest shouldStop key' batches result) := by
  induction batches generalizing result with
  | nil => exact rfl
  | cons batch rest ih =>
    unfold flushBatches
    split
    · exact rfl
    · refine Holds.bind (holds_onPartition (balance_commitSegments digest key'.1 batch) key
        key').attempt fun r => ?_
      cases r with
      | ok _ => exact ih _
      | error e => exact rfl

theorem balanceAt_flushGroups (blocked : List Key) (groups : List (Key × List String))
    (result : FlushResult) :
    BalanceAt key (flushGroups digest shouldStop blocked groups result) := by
  induction groups generalizing result with
  | nil => exact rfl
  | cons group groups ih =>
    obtain ⟨key', segments⟩ := group
    unfold flushGroups
    split
    · exact ih result
    · refine (balanceAt_flushBatches key' _ result).bind fun r => ?_
      obtain ⟨result, stopped⟩ := r
      cases stopped with
      | true => exact rfl
      | false => exact ih result

/-- **A flush gives its temporary files back.** -/
theorem balanceAt_flush (force due : Bool) :
    BalanceAt key (flush digest force due shouldStop) := by
  have hkeys : BalanceAt key listPartitions :=
    balanceAt_of_steady (moves_listPartitions SameTemporaries.refl)
  have hlist : ∀ {f : Partition → List String} {op : Op} keys, BalanceAt key
      (listEach (fun _ => fsRead op fun p => .ok (f p)) keys) := fun keys =>
    balanceAt_list (fun _ => moves_fsRead SameTemporaries.refl) keys
  unfold flush
  refine hkeys.bind fun keys => (hlist keys).bind fun markers => ?_
  refine (balanceAt_recoverCommits markers _).bind fun acc => ?_
  obtain ⟨result, blocked⟩ := acc
  dsimp only
  split
  · exact rfl
  · exact hkeys.bind fun keys => (hlist keys).bind fun groups =>
      balanceAt_flushGroups blocked groups result

end Flush

/-- The calls of the spool, and what their ends do. -/
theorem balanced (digest : List String → String) (key : Key) :
    Balanced (spoolRules digest) (temporaries key) (RemovingAt key) where
  starts i s p hp := by
    cases i with
    | stage =>
      obtain ⟨key', name, rows, -, rfl⟩ := hp
      exact (holds_onPartition (balance_stage name rows) key key').bind fun _ => rfl
    | flush =>
      obtain ⟨force, due, shouldStop, rfl⟩ := hp
      exact (balanceAt_flush force due).bind fun _ => rfl
  finish i result s := by
    obtain ⟨returned, hreturned⟩ := partitionAt_finishCall result s key
    show (partitionAt key (finishCall result s)).spoolTemporaries = _
    rw [hreturned, temporaries]
  kill _ _ := rfl

/-! ### Commit markers -/

/-- The commit markers are the same. -/
def SameCommits (s t : Partition) : Prop := t.commits = s.commits

theorem SameCommits.refl (s : Partition) : SameCommits s s := rfl

/-- A flush is alone with the commit markers, and a stage call leaves them alone. -/
def markerContract : SpoolThread → Contract Partition Op Choice
  | .stage =>
    { rely := fun _ _ => True
      admits := fun _ _ _ => True
      guarantee := SameCommits
      rely_refl := fun _ => trivial
      rely_trans := fun _ _ => trivial }
  | .flush =>
    { rely := SameCommits
      admits := fun _ _ _ => True
      guarantee := fun _ _ => True
      rely_refl := SameCommits.refl
      rely_trans := fun h h' => h'.trans h }

/-- The contract of a flush on one partition, and on all. -/
abbrev flushMarkers : Contract Partition Op Choice := markerContract .flush

@[inherit_doc flushMarkers]
abbrev flushMarkersAt : Contract Disk DiskOp Choice := diskContract fun _ => flushMarkers

/-- Every commit marker is one of these. -/
def Left (marked : String → Prop) (p : Partition) : Prop := ∀ d ∈ p.commits, marked d

variable {marked : String → Prop} {s : Partition}

theorem stable_left (marked : String → Prop) : flushMarkers.Stable (Left marked) := by
  intro s t hr h d hd
  rw [show t.commits = s.commits from hr] at hd
  exact h d hd

/-- A program that leaves the commit markers alone. -/
theorem ensures_sameCommits {α : Type} {p : PartitionProg α} (h : p.Moves SameCommits)
    (hs : Left marked s) :
    Ensures flushMarkers (fun _ => Left marked) (fun _ _ => True) p s := by
  refine (Ensures.of_moves (stable_left marked) (fun _ _ _ => trivial) (fun t u hu ht d hd => ?_)
    h hs).mono (fun _ _ h => h) fun _ _ _ => trivial
  rw [show u.commits = t.commits from hu] at hd
  exact ht d hd

theorem ensures_anything {α : Type} (p : PartitionProg α) (s : Partition) :
    Ensures flushMarkers (fun _ _ => True) (fun _ _ => True) p s :=
  Ensures.of_moves (fun _ _ _ _ => trivial) (fun _ _ _ => trivial) (fun _ _ _ _ => trivial)
    (Prog.moves_true p) trivial

/-- **A marker that is removed** is no longer there. -/
theorem ensures_dropCommit {d : String} (h : Left (fun x => x = d ∨ marked x) s) :
    Ensures flushMarkers (fun _ => Left marked) (fun _ _ => True) (unlinkCommit d) s := by
  refine ensures_fsStep (stable_left _) h (fun t r ht _ hr => ⟨trivial, fun u hu => ?_⟩)
    (fun _ _ _ _ => ⟨trivial, fun _ _ => trivial⟩) fun _ _ _ _ => ⟨trivial, fun _ _ => trivial⟩
  split at hr
  · cases hr
    refine stable_left marked _ u hu fun x hx => ?_
    obtain ⟨hne, hx⟩ := AList.mem_erase.mp hx
    exact (ht x hx).resolve_left hne
  · cases hr

theorem sameCommits_unlinkSegment (name : String) :
    (unlinkSegment name).Moves SameCommits :=
  moves_unlink SameCommits.refl fun _ => rfl

theorem ensures_clearCommit {d : String} (h : Left (fun x => x = d ∨ marked x) s) :
    Ensures flushMarkers (fun _ => Left marked) (fun _ _ => True) (recoverCommit d) s := by
  refine (ensures_sameCommits (moves_readJson SameCommits.refl) h).bind fun transaction t ht => ?_
  cases transaction with
  | none => exact fun _ _ => trivial
  | some marker =>
    dsimp only
    split
    · exact fun _ _ => trivial
    · refine (ensures_sameCommits (moves_validOutput SameCommits.refl _ _) ht).bind
        fun b t ht => ?_
      cases b with
      | true =>
        refine (ensures_sameCommits (moves_unlinkSegments (fun name =>
          moves_ignoreMissing (sameCommits_unlinkSegment name)) _) ht).bind fun _ t ht => ?_
        exact ensures_dropCommit ht
      | false =>
        refine (ensures_sameCommits (moves_allPresent SameCommits.refl _) ht).bind
          fun present t ht => ?_
        cases present with
        | true => exact ensures_dropCommit ht
        | false => exact fun _ _ => trivial

/-- **A commit that goes through** leaves no marker. -/
theorem ensures_commitLeaves {digest : List String → String} {feed : Feed} {segments : List String}
    (h : Left marked s) :
    Ensures flushMarkers (fun _ => Left marked) (fun _ _ => True)
      (commitSegments digest feed segments) s := by
  have K : Keeps flushMarkers (fun _ => True) True :=
    ⟨fun _ _ _ _ => trivial, fun _ => trivial, fun _ _ _ _ => trivial⟩
  have hread := moves_readSegments SameCommits.refl segments
  refine (ensures_sameCommits hread h).bind fun rows t ht => ?_
  -- the marker of this batch is the only new one
  refine Ensures.through (fun _ => Left fun x => x = digest segments ∨ marked x)
    ((K.atomicWrite (stable_left marked) (stable_left _) (fun _ _ => trivial) (fun _ _ => trivial)
      (fun u hu => ⟨trivial, ?_⟩) (fun _ _ => ⟨trivial, trivial⟩)
      (fun u hu _ => ⟨trivial, fun x hx => ?_⟩) ht).mono (fun _ _ h => h) fun _ _ _ => trivial)
    fun _ t ht => ?_
  · exact hu
  · rcases (AList.mem_insert _).mp hx with rfl | hx
    · exact Or.inl rfl
    · exact Or.inr (hu x hx)
  have hfinish : ∀ output n t, Left (fun x => x = digest segments ∨ marked x) t →
      Ensures flushMarkers (fun _ => Left marked) (fun _ _ => True) (do
        if (← parquetRowCount output) ≠ n then
          throw ⟨.osError, "row-count validation failed for " ++ output.text⟩
        unlinkSegments unlinkSegment segments
        unlinkCommit (digest segments)
        pure (output, n) : PartitionProg (PartName × ℕ)) t := by
    intro output n t ht
    refine (ensures_sameCommits (moves_fsRead SameCommits.refl) ht).bind fun count t ht => ?_
    split
    · exact fun _ _ => trivial
    · refine (ensures_sameCommits (moves_unlinkSegments sameCommits_unlinkSegment _) ht).bind
        fun _ t ht => ?_
      exact (ensures_dropCommit ht).bind fun _ t ht =>
        Ensures.pure_of (stable_left marked) ht fun _ h => h
  refine (ensures_sameCommits (moves_validOutput SameCommits.refl _ _) ht).bind fun b t ht => ?_
  cases b with
  | true => exact hfinish _ _ t ht
  | false =>
    exact (ensures_sameCommits (moves_writeParquetAtomic SameCommits.refl feed hread (fun _ => rfl)
      fun _ _ => rfl) ht).bind fun _ t ht => hfinish _ _ t ht

/-! ### A flush without an error -/

section Flush

variable {q : Prop} {remaining : Key → String → Prop} {disk : Disk}

/-- As long as `q`, every commit marker of the data directory is one of these. -/
def LeftAt (q : Prop) (remaining : Key → String → Prop) (disk : Disk) : Prop :=
  q → Each (fun key => Left (remaining key)) disk

theorem stable_leftAt : flushMarkersAt.Stable (LeftAt q remaining) :=
  fun _ _ hr h hq key => stable_left _ _ _ (hr key) (h hq key)

/-- A program on one partition, with both outcomes handed over: where it goes through, it leaves
fewer markers. -/
theorem ensures_attemptAt (after : Key → String → Prop) {α : Type} {key : Key}
    {p : PartitionProg α} (h : ∀ s, Left (remaining key) s →
      Ensures flushMarkers (fun _ => Left (after key)) (fun _ _ => True) p s)
    (hafter : ∀ key' d, key' ≠ key → remaining key' d → after key' d)
    (hs : LeftAt q remaining disk) {exc : PyError → Disk → Prop} :
    Ensures flushMarkersAt (fun r => LeftAt (q ∧ r.isOk) after) exc
      (onPartition key p).attempt disk := by
  by_cases hq : q
  · have hcall := ensures_onPartition (C := fun _ => flushMarkers) (fun _ _ => trivial)
      (fun key => stable_left (remaining key)) (h _ (hs hq key)) fun key' _ => hs hq key'
    refine (hcall.mono (fun a t ht => ?_) fun e t _ => ?_).attempt
    · exact fun _ => each_of ht.1 ht.2 fun key' p hk hp d hd => hafter key' d hk (hp d hd)
    · exact fun hok => absurd hok.2 Bool.false_ne_true
  · have hany : Ensures flushMarkersAt (fun _ _ => True) (fun _ _ => True) (onPartition key p) disk :=
      Ensures.of_moves (fun _ _ _ _ => trivial) (fun _ _ _ _ => trivial) (fun _ _ _ _ => trivial)
        (Prog.moves_true _) trivial
    exact (hany.mono (fun a t _ hok => absurd hok.1 hq) fun e t _ hok => absurd hok.1 hq).attempt

/-- **The markers of one partition** are dealt with, or there is an error. -/
theorem ensures_clearMarkers {key : Key} {digests : List String} {acc : FlushResult × List Key}
    (h : LeftAt (acc.1.errors = []) (fun key' d => key' = key ∧ d ∈ digests ∨ remaining key' d)
      disk) {exc : PyError → Disk → Prop} :
    Ensures flushMarkersAt (fun acc' => LeftAt (acc'.1.errors = []) remaining) exc
      (recoverMarkers key digests acc) disk := by
  induction digests generalizing acc disk with
  | nil =>
    refine Ensures.pure_of stable_leftAt h fun t ht herrors key' d hd => ?_
    exact (ht herrors key' d hd).resolve_left fun hnil => List.not_mem_nil hnil.2
  | cons digest digests ih =>
    obtain ⟨result, blocked⟩ := acc
    refine Ensures.bind (ensures_attemptAt
      (fun key' d => key' = key ∧ d ∈ digests ∨ remaining key' d) (fun s hs => ensures_clearCommit fun d hd => ?_) (fun key' d hk hd => ?_) h) fun r t ht => ?_
    · rcases hs d hd with ⟨-, hmem⟩ | hd
      · rcases List.mem_cons.mp hmem with rfl | hmem
        · exact Or.inl rfl
        · exact Or.inr (Or.inl ⟨rfl, hmem⟩)
      · exact Or.inr (Or.inr hd)
    · rcases hd with ⟨heq, -⟩ | hd
      · exact absurd heq hk
      · exact Or.inr hd
    · cases r with
      | ok _ => exact ih fun herrors => ht ⟨herrors, rfl⟩
      | error e => exact ih fun herrors => by simp at herrors

/-- **The recovery of all partitions** leaves no listed marker, or there is an error. -/
theorem ensures_clearCommits {groups : List (Key × List String)} {acc : FlushResult × List Key}
    (h : LeftAt (acc.1.errors = []) (fun key d => ∃ names, (key, names) ∈ groups ∧ d ∈ names) disk)
    {exc : PyError → Disk → Prop} :
    Ensures flushMarkersAt (fun acc' => LeftAt (acc'.1.errors = []) fun _ _ => False) exc
      (recoverCommits groups acc) disk := by
  induction groups generalizing acc disk with
  | nil =>
    refine Ensures.pure_of stable_leftAt h fun t ht herrors key d hd => ?_
    obtain ⟨names, hmem, -⟩ := ht herrors key d hd
    exact List.not_mem_nil hmem
  | cons group groups ih =>
    obtain ⟨key, digests⟩ := group
    refine (ensures_clearMarkers fun herrors key' d hd => ?_).bind fun acc' t ht => ih ht
    obtain ⟨names, hmem, hnames⟩ := h herrors key' d hd
    rcases List.mem_cons.mp hmem with heq | hmem
    · obtain ⟨rfl, rfl⟩ := Prod.mk.inj heq
      exact Or.inl ⟨rfl, hnames⟩
    · exact Or.inr ⟨names, hmem, hnames⟩

variable {digest : List String → String} {shouldStop : Key → List String → Bool}

/-- No commit marker is left, or there is an error. -/
abbrev Unmarked (result : FlushResult) (disk : Disk) : Prop :=
  LeftAt (result.errors = []) (fun _ _ => False) disk

theorem ensures_unmarkedBatches {key : Key} {todo : List (List String)} {result : FlushResult}
    (h : Unmarked result disk) {exc : PyError → Disk → Prop} :
    Ensures flushMarkersAt (fun r => Unmarked r.1) exc
      (flushBatches digest shouldStop key todo result) disk := by
  induction todo generalizing result disk with
  | nil => exact Ensures.pure_of stable_leftAt h fun _ h => h
  | cons batch todo ih =>
    unfold flushBatches
    split
    · exact Ensures.pure_of stable_leftAt h fun _ h => h
    · refine Ensures.bind (ensures_attemptAt (fun _ _ => False)
        (fun s hs => ensures_commitLeaves hs) (fun _ _ _ hd => hd) h) fun r t ht => ?_
      cases r with
      | ok a => exact ih fun herrors => ht ⟨herrors, rfl⟩
      | error e =>
        exact Ensures.pure_of stable_leftAt (P := Unmarked _) (fun herrors => by simp at herrors)
          fun _ h => h

theorem ensures_unmarkedGroups {blocked : List Key} {groups : List (Key × List String)}
    {result : FlushResult} (h : Unmarked result disk) {exc : PyError → Disk → Prop} :
    Ensures flushMarkersAt Unmarked exc
      (flushGroups digest shouldStop blocked groups result) disk := by
  induction groups generalizing result disk with
  | nil => exact Ensures.pure_of stable_leftAt h fun _ h => h
  | cons group groups ih =>
    obtain ⟨key, segments⟩ := group
    unfold flushGroups
    split
    · exact ih h
    · refine (ensures_unmarkedBatches h).bind fun r t ht => ?_
      obtain ⟨result', stopped⟩ := r
      dsimp only
      split
      · exact Ensures.pure_of stable_leftAt ht fun _ h => h
      · exact ih ht

/-- The listing of the commit markers of a partition. -/
theorem ensures_listCommits {P : Partition → Prop} {p : Partition} (hP : flushMarkers.Stable P)
    (h : P p) :
    Ensures flushMarkers (fun names q => P q ∧ ∀ d ∈ q.commits, d ∈ names) (fun _ => P)
      listCommits p := by
  have K : Keeps flushMarkers P True := ⟨hP, fun _ => trivial, fun _ _ _ _ => trivial⟩
  refine (K.read (Q := fun names q => P q ∧ ∀ d ∈ q.commits, d ∈ names) hP
    (fun names t u hr ht => ⟨hP t u hr ht.1, ?_⟩) (fun _ h => h) (fun t names ht hnames => ⟨ht, ?_⟩)
    (fun t e _ he => by cases he) h).mono (fun _ _ h => h) fun _ _ h => h.1
  · rw [show u.commits = t.commits from hr]
    exact ht.2
  · cases hnames
    intro d hd
    rw [(List.perm_insertionSort _ _).mem_iff]
    exact AList.mem_keys.mp hd

/-- A program that leaves the commit markers of all partitions alone. -/
theorem ensures_sameCommitsAt {α : Type} {p : DiskProg α} {result : FlushResult}
    (h : p.Moves (Pointwise SameCommits)) (hdisk : Unmarked result disk) :
    Ensures flushMarkersAt (fun _ => Unmarked result) (fun _ _ => True) p disk := by
  refine (Ensures.of_moves stable_leftAt (fun _ _ _ _ => trivial)
    (fun s t hst hs herrors key d hd => ?_) h hdisk).mono (fun _ _ h => h) fun _ _ _ => trivial
  rw [show (partitionAt key t).commits = (partitionAt key s).commits from hst key] at hd
  exact hs herrors key d hd

/-- **A flush without an error** leaves no commit marker anywhere. -/
theorem ensures_unmarkedFlush (force due : Bool) (disk : Disk) :
    Ensures flushMarkersAt Unmarked (fun _ _ => True)
      (flush digest force due shouldStop) disk := by
  -- the markers of all partitions
  refine Ensures.bind ((ensures_listPartitions (C := fun _ => flushMarkers)
    (A := fun _ _ => True) (B := fun _ p => ∀ d, d ∉ p.commits) (fun _ _ => trivial)
    (fun _ _ _ _ _ => trivial) (fun key s t hr hs => ⟨trivial, ?_⟩)
    (fun _ d => AList.notMem_empty d) fun _ => trivial).mono (fun _ _ h => h)
    fun _ _ _ => trivial) fun keys t ht => ?_
  · rw [show t.commits = s.commits from hr]
    exact hs.2
  obtain ⟨-, ht⟩ := ht
  refine Ensures.bind ((ensures_listEach (C := fun _ => flushMarkers) (I := fun _ _ => True)
    (A := fun key p => True ∧ (key ∉ keys → ∀ d, d ∉ p.commits))
    (B := fun _ names p => ∀ d ∈ p.commits, d ∈ names) (fun _ _ => trivial)
    (fun key names p q _ hr hp => ?_) (fun key P p hP _ hp => ensures_listCommits hP hp) keys
    (fun key p q hr hp => ⟨trivial, ?_⟩) (fun _ _ _ => trivial) ht).mono (fun _ _ h => h)
    fun _ _ _ => trivial) fun groups t ht => ?_
  · rw [show q.commits = p.commits from hr]
    exact hp
  · rw [show q.commits = p.commits from hr]
    exact hp.2
  obtain ⟨hgroups, ht⟩ := ht
  refine Ensures.bind (ensures_clearCommits fun _ key d hd => ?_) fun acc t ht => ?_
  · obtain ⟨⟨-, hunlisted⟩, hlisted⟩ := ht key
    by_cases hkey : key ∈ keys
    · rw [← hgroups] at hkey
      obtain ⟨⟨key', names⟩, hmem, rfl⟩ := List.mem_map.mp hkey
      exact ⟨names, hmem, hlisted names hmem d hd⟩
    · exact absurd hd (hunlisted hkey d)
  obtain ⟨result, blocked⟩ := acc
  dsimp only at ht ⊢
  split
  · exact Ensures.pure_of stable_leftAt ht fun _ h => h
  -- the segments of all partitions
  have hlist : ∀ keys, (listEach (fun _ => listSegments) keys).Moves (Pointwise SameCommits) :=
    moves_listEach SameCommits.refl fun _ => moves_fsRead SameCommits.refl
  refine (ensures_sameCommitsAt (moves_listPartitions SameCommits.refl) ht).bind
    fun keys t ht => ?_
  exact (ensures_sameCommitsAt (hlist keys) ht).bind fun groups t ht => ensures_unmarkedGroups ht

end Flush

/-- What a call has done to the markers where it returns. -/
def ReturnedMarkers (i : SpoolThread) (result : SpoolResult) (disk : Disk) : Prop :=
  i = .flush → ∀ r, result = .flushed r → Unmarked r disk

theorem sameCommits_stage (name : String) (rows : List Row) :
    (stage name rows).Moves SameCommits := by
  unfold stage
  split
  · exact trivial
  · refine (moves_fsOp SameCommits.refl SameCommits.refl).bind fun _ => ?_
    refine Prog.Moves.bind (moves_atomicWriteBytes SameCommits.refl ?_ ?_ ?_) fun _ => trivial
    · exact SameCommits.refl
    · exact SameCommits.refl
    · exact SameCommits.refl

/-- The two threads and the commit markers. -/
theorem sound_markers (digest : List String → String) :
    Sound (spoolRules digest) (fun _ => True) (fun i => diskContract fun _ => markerContract i)
      ReturnedMarkers (fun _ _ _ => True) where
  starts i s p _ hp := by
    cases i with
    | stage =>
      obtain ⟨key, name, rows, -, rfl⟩ := hp
      have hmoves : (stageCall key name rows).Moves (Pointwise SameCommits) :=
        (moves_onPartition SameCommits.refl (sameCommits_stage name rows) key).bind fun _ => trivial
      exact (Ensures.of_moves (P := fun _ => True) (fun _ _ _ _ => trivial) (fun _ _ h => h)
        (fun _ _ _ _ => trivial) hmoves trivial).mono (fun _ _ _ h => by cases h) fun _ _ _ => trivial
    | flush =>
      obtain ⟨force, due, shouldStop, rfl⟩ := hp
      refine Ensures.bind (ensures_unmarkedFlush force due s) fun result t ht => ?_
      refine Ensures.pure_of stable_leftAt ht fun u hu _ r hr => ?_
      cases hr
      exact hu
  admits i op c s _ _ := by
    intro key o _
    cases i <;> exact trivial
  op_inv _ _ _ _ _ := trivial
  op_rely i j s t _ hij hg := by
    intro key
    cases j with
    | stage => exact trivial
    | flush =>
      cases i with
      | stage => exact hg key
      | flush => exact absurd rfl hij
  returns_inv _ _ _ _ _ := trivial
  returns_rely i j a s _ hij _ := by
    intro key
    cases j with
    | stage => exact trivial
    | flush =>
      obtain ⟨returned, hreturned⟩ := partitionAt_finishCall (.ok a) s key
      show (partitionAt key (finishCall (.ok a) s)).commits = _
      rw [hreturned]
  raises_inv _ _ _ _ _ := trivial
  raises_rely i j e s _ _ _ := (diskContract fun _ => markerContract j).rely_refl s
  kill_inv _ _ _ := trivial
  kill_rely _ j s _ _ := (diskContract fun _ => markerContract j).rely_refl s

/-! ### Empty again -/

/-- A system of calls of the spool. -/
abbrev SpoolSys : Type := Sys Disk DiskOp Choice PyError SpoolResult SpoolThread

/-- No call that stages goes on in the partition of `key`. -/
def Done (key : Key) (t : SpoolSys) : Prop :=
  ∀ p, t.running .stage = some p → p.Moves fun s s' => partitionAt key s' = partitionAt key s

/-- **The spool partition empties again**: a flush has returned without an error, no segment is
pending and none is being staged. Then its directory has no entry. -/
def Empties (key : Key) (t : SpoolSys) : Prop :=
  ∀ result, t.running .flush = some (.pure (.flushed result)) → result.errors = [] → Done key t →
    (partitionAt key t.state).segments = ∅ → spoolEmpty (partitionAt key t.state) = true

/-- The runs in which every temporary file in the partition of `key` goes with its call: no call is
killed while there is one, and none fails to remove its own. -/
abbrev ReachTidy (digest : List String → String) (key : Key) (s t : SpoolSys) : Prop :=
  ReachWhere (spoolRules digest) (RemovingAt key) (fun _ disk => temporaries key disk = 0) s t

instance : Fintype SpoolThread := ⟨{.stage, .flush}, fun i => by cases i <;> simp⟩

theorem temporaries_eq_zero {digest : List String → String} {key : Key} {t : SpoolSys}
    {result : SpoolResult} (ht : ReachTidy digest key (Sys.boot SpoolThread ∅) t)
    (hflush : t.running .flush = some (.pure result)) (hstage : Done key t) :
    temporaries key t.state = 0 := by
  have hboot : temporaries key ∅ = 0 := by
    rw [temporaries, partitionAt_of_not_mem (AList.notMem_empty key)]
  obtain ⟨held, h⟩ := Accounted.reach (balanced digest key) hboot ht
  rw [← h.total]
  refine Finset.sum_eq_zero fun i _ => ?_
  cases i with
  | flush => exact h.running _ _ hflush
  | stage =>
    cases hp : t.running .stage with
    | none => exact h.idle _ hp
    | some p =>
      -- what is left of the call does nothing here, so it holds nothing
      refine Holds.eq_of_moves (fun op eff => ?_) (h.running _ p hp)
        ((hstage p hp).mono fun s s' heq => by rw [temporaries, heq, temporaries])
      refine ⟨.ok, modifyAt key (fun p => { p with spoolTemporaries := held .stage }) ∅, ?_,
        fun _ _ => rfl⟩
      rw [temporaries, components.same]

/-- **A spool partition empties again**, in every run in which every temporary file goes with its
call. -/
theorem emptied {digest : List String → String} {key : Key} {t : SpoolSys}
    (ht : ReachTidy digest key (Sys.boot SpoolThread ∅) t) : Empties key t := by
  intro result hflush herrors hstage hsegments
  have hgood := (sound_markers digest).reach trivial ht.reach
  have hunmarked := hgood.returned hflush rfl result rfl herrors key
  refine spoolEmpty_iff.mpr ⟨hsegments, keys_eq_nil.mp ?_, ?_⟩
  · exact List.eq_nil_iff_forall_not_mem.mpr fun d hd => hunmarked d (AList.mem_keys.mpr hd)
  · exact temporaries_eq_zero ht hflush hstage

/-! ### Two runs -/

/-- A flush that nothing fails in, after `n` operations. -/
def flushing (n : ℕ) (disk : Disk) : DiskProg SpoolResult × Disk :=
  sampleFlush.after (List.replicate n .ok) disk

/-- A flush has run to its end on the partition, and the threads stand as `running` says. -/
def flushedSys (n : ℕ) (disk : Disk) (stage : Option (DiskProg SpoolResult)) : SpoolSys where
  state := (flushing n disk).2
  running
    | .stage => stage
    | .flush => some (flushing n disk).1

/-- A poll of the next day. -/
def nextStage : DiskProg SpoolResult :=
  stageCall (.vehiclepositions, "2026-01-03") "batch-c.json.gz" [[("entity_id", .str "v3")]]

theorem done_nextStage (n : ℕ) (disk : Disk) :
    Done sampleKey (flushedSys n disk (some nextStage)) := by
  intro p hp
  obtain rfl := Option.some.inj hp
  refine Prog.Moves.bind ?_ fun _ => trivial
  refine Prog.Moves.zoom (fun f s _ => ?_) (Prog.moves_true _)
  exact components.other _ sampleKey f s (by decide)

section Runs

variable {ops : DiskOp → (Choice → Disk → Disk) → Choice → Disk → Prop} {kills : Unit → Disk → Prop}
  {s : SpoolSys} {disk : Disk}

/-- A flush starts, and nothing fails in its first `n` operations. -/
theorem reach_flushing (h : ReachWhere (spoolRules sampleDigest) ops kills s ⟨disk, fun _ => none⟩)
    (hops : ∀ op eff disk, ops op eff .ok disk) (n : ℕ) :
    ReachWhere (spoolRules sampleDigest) ops kills s (flushedSys n disk none) := by
  have hstart := h.tail (StepWhere.start .flush sampleFlush rfl (starts_sampleFlush _))
  have hafter := ReachWhere.after hstart .flush (List.replicate n .ok) (Function.update_self ..)
    (Prog.admitted_of_forall (fun _ _ _ => trivial) _ _ _) fun c hc op eff disk => by
      rw [List.eq_of_mem_replicate hc]
      exact hops op eff disk
  refine cast (congrArg (ReachWhere _ ops kills s) ?_) hafter
  refine congrArg (Sys.mk _) (funext fun i => ?_)
  cases i with
  | stage => rfl
  | flush => exact Function.update_self ..

end Runs

theorem reach_sampleStaged : ReachTidy sampleDigest sampleKey (Sys.boot SpoolThread ∅)
    ⟨sampleStaged, fun _ => none⟩ := by
  have hstart : ReachTidy sampleDigest sampleKey (Sys.boot SpoolThread ∅) ⟨∅, fun _ => none⟩ :=
    Relation.ReflTransGen.refl
  have hone : ReachTidy sampleDigest sampleKey (Sys.boot SpoolThread ∅)
      ⟨finished (sampleStage "batch-a.json.gz" "v1") ∅, fun _ => none⟩ :=
    hstart.call .stage .ok (fun _ _ => trivial) (fun _ _ _ _ _ => rfl) rfl
      (starts_sampleStage (by decide))
  exact hone.call .stage .ok (fun _ _ => trivial) (fun _ _ _ _ _ => rfl) rfl
    (starts_sampleStage (by decide +kernel))

/-- Two polls are staged, the flush is killed between two segments, and the flush after the restart
returns while a poll of the next day is staged. -/
theorem reach_tidySample : ReachTidy sampleDigest sampleKey (Sys.boot SpoolThread ∅)
    (flushedSys 10 sampleKilled (some nextStage)) := by
  have hkilled : ReachTidy sampleDigest sampleKey (Sys.boot SpoolThread ∅)
      ⟨sampleKilled, fun _ => none⟩ :=
    (reach_flushing reach_sampleStaged (fun _ _ _ _ _ => rfl) 21).tail
      (StepWhere.kill () (by decide +kernel))
  have hflushed := reach_flushing hkilled (fun _ _ _ _ _ => rfl) 10
  refine cast (congrArg (ReachTidy _ _ _) ?_) (hflushed.tail (StepWhere.start .stage nextStage rfl
    (show (spoolRules sampleDigest).starts .stage _ nextStage from
      ⟨_, _, _, by decide +kernel, rfl⟩)))
  refine congrArg (Sys.mk _) (funext fun i => ?_)
  cases i with
  | stage => exact Function.update_self ..
  | flush => rfl

/-- The partition of the two polls is empty. -/
theorem emptied_killedFlush :
    (partitionAt sampleKey sampleKilled).segments.keys = ["batch-b.json.gz"] ∧
      spoolEmpty (partitionAt sampleKey (flushing 10 sampleKilled).2) = true := by
  refine ⟨by decide +kernel, ?_⟩
  exact emptied reach_tidySample _ rfl (by decide +kernel) (done_nextStage 10 sampleKilled)
    (keys_eq_nil.mp (by decide +kernel))

/-- What a stage call leaves that is killed while it writes its temporary file. -/
def sampleOrphan : Disk :=
  ((sampleStage "batch-a.json.gz" "v1").after (List.replicate 3 .ok) ∅).2

/-- **A temporary file that a killed call left behind** is in the partition after the flush that
finds nothing to do. -/
theorem not_emptied : ¬ ∀ t : SpoolSys,
    Reach (spoolRules sampleDigest) (Sys.boot SpoolThread ∅) t → ∀ key, Empties key t := by
  intro h
  have hstart : Reach (spoolRules sampleDigest) (Sys.boot SpoolThread ∅) ⟨∅, fun _ => none⟩ :=
    Relation.ReflTransGen.refl
  have hstage := Reach.after (hstart.tail (Step.start .stage (sampleStage "batch-a.json.gz" "v1") rfl
    (starts_sampleStage (by decide)))) .stage (List.replicate 3 .ok) (Function.update_self ..)
    (Prog.admitted_of_forall (fun _ _ _ => trivial) _ _ _)
  have horphan : Reach (spoolRules sampleDigest) (Sys.boot SpoolThread ∅)
      ⟨sampleOrphan, fun _ => none⟩ := hstage.tail (Step.kill ())
  have hreach := (reach_flushing horphan.anywhere (fun _ _ _ => trivial) 4).reach
  have hempty := h _ hreach sampleKey {} rfl rfl (fun p hp => by cases hp)
    (keys_eq_nil.mp (by decide +kernel))
  exact absurd hempty (by decide +kernel)

end BkkCollector.Storage.SpoolEmpties
