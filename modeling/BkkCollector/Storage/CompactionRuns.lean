import BkkCollector.Logic.Threads
import BkkCollector.Storage.Compaction

/-! # Runs of compaction

Calls of `compactPartition` on one partition, one after the other, each of which may be killed
between any two of its file operations, and any of these may fail. `keepsRows`: where no call takes
the marker of an unfinished compaction for a missing one, the rows stay, and they are there exactly
once whenever a call returned. `not_keepsRows`: such a call merges the rows of the output with those
of the sources it was made of. -/

namespace BkkCollector.Storage.CompactionRuns

open BkkCollector.Logic.MergeStore BkkCollector.Logic.Program BkkCollector.Logic.Threads
open BkkCollector.Python.Objects BkkCollector.Config
open BkkCollector.Storage.AtomicIo BkkCollector.Storage.ParquetStore
open BkkCollector.Storage.ParquetCompact
open BkkCollector.Storage.PartitionStore BkkCollector.Storage.PartitionInvariant
open BkkCollector.Storage.PartitionRules BkkCollector.Storage.Compaction

/-! ### The system -/

/-- **Compaction of one partition**, with any `min_files` in each call. -/
def compactionRules (identity : Identity) (admits : Op → Choice → Partition → Prop) :
    Rules Partition Op Choice PyError (Option PartName) Unit Unit where
  starts _ _ p := ∃ minFiles, p = compactPartition identity minFiles
  admits _ := admits
  finish _ _ p := p
  process _ := ()
  kill _ p := p

/-- A system of one thread that compacts. -/
abbrev CompactionSys := Sys Partition Op Choice PyError (Option PartName) Unit

/-- A partition of readable files that no compaction has seen. -/
structure Original (p : Partition) : Prop where
  transaction : p.transaction = none
  readable : ∀ n file, p.parts.lookup n = some file → Aligned file
  staged : p.staged = []

/-- What a compaction promises: no row is ever missing, and where a call returned a path, or nothing
with no marker left, each row is there once. -/
structure Preserved (p : Partition) (s : CompactionSys) : Prop where
  present : parquetRows p ≤ parquetRows s.state
  returned : ∀ output, s.running () = some (.pure (some output)) →
    parquetRows s.state = parquetRows p
  unmarked : s.running () = some (.pure none) → s.state.transaction = none →
    parquetRows s.state = parquetRows p

/-- The marker cannot be read only while the output it names is not in place, or no file that the
output replaces has rows left. -/
def MarkerRead (op : Op) (c : Choice) (p : Partition) : Prop :=
  op = .read .transaction → c ≠ .ok → ∀ t, p.transaction = some t → Spent p t

/-! ### A partition whose spool is empty -/

variable {identity : Identity} {p : Partition} {s : CompactionSys}

theorem kept_original (hp : Original p) (feed : Feed) (hcommits : p.commits = ∅)
    (hsegments : p.segments = ∅) :
    Kept False (fun _ => "") feed (parquetRows p) p := by
  have hmerges : ∀ k m, (store feed p).merges k ≠ some m := by
    intro k m hm
    obtain ⟨d, marker, -, hd, -⟩ | ⟨t, -, ht, -⟩ := merges_cases hm
    · rw [hcommits] at hd
      cases hd
    · rw [hp.transaction] at ht
      cases ht
  refine ⟨⟨?_, ?_, fun d m hm => ?_, fun t ht => ?_, hp.readable⟩, False.elim⟩
  · exact ⟨fun k m hm => absurd hm (hmerges k m), fun k m hm => absurd hm (hmerges k m),
      fun k m hm => absurd hm (hmerges k m), fun k _ m _ hm => absurd hm (hmerges k m),
      fun k _ m _ hm => absurd hm (hmerges k m), fun k _ m _ hm => absurd hm (hmerges k m)⟩
  · have hhidden : ∀ n ∈ (store feed p).files,
        (store feed p).Hidden n → (store feed p).rows n = 0 := by
      rintro n - ⟨k, m, hm, -⟩
      exact absurd hm (hmerges k m)
    rw [Store.visible_eq_sum hhidden, sum_files, spoolRows_of_empty hsegments, zero_add,
      stagedRows, hp.staged]
    exact (add_zero _).symm
  · rw [hcommits] at hm
    cases hm
  · rw [hp.transaction] at ht
    cases ht

/-- The contract of calls that have the partition for themselves. -/
def compactionContract (spooled : Prop) (digest : List String → String) (feed : Feed)
    (base : Multiset (String → Value)) : Contract Partition Op Choice :=
  partyContract (Kept spooled digest feed base) MarkerRead Eq MaintenanceStep (fun _ => rfl)
    fun _ _ _ => Eq.trans

theorem safe_compactionContract (spooled : Prop) (digest : List String → String) (feed : Feed)
    (base : Multiset (String → Value)) :
    Safe spooled digest feed base (compactionContract spooled digest feed base)
      fun q => q.commits = ∅ ∧ q.partsDirectory = true where
  toParty := party_alone MaintenanceRely.refl MaintenanceStep.refl fun _ _ _ _ => trivial
  start q _ hdirectory hempty := ⟨(spoolEmpty_iff.mp hempty).2.1, hdirectory⟩
  directory q _ hquiet := hquiet.2
  stays q q' hq _ hr hquiet := by
    rw [← (hr hq).2]
    exact hquiet
  step q q' hstep hquiet :=
    ⟨hstep.commits.trans hquiet.1, hstep.directory.trans hquiet.2⟩
  unlink n q _ hquiet _ d m hm := by
    rw [hquiet.1] at hm
    cases hm
  marker n q t _ ha ht := ha rfl (fun hc => by cases hc) t ht

/-- What holds in every run on a partition whose spool directory is empty. -/
def Alone (feed : Feed) (base : Multiset (String → Value)) (q : Partition) : Prop :=
  Kept False (fun _ => "") feed base q ∧ q.segments = ∅ ∧ q.staged = []

theorem sound_alone (feed : Feed) (base : Multiset (String → Value)) :
    Sound (compactionRules identity MarkerRead) (Alone feed base)
      (fun _ => compactionContract False (fun _ => "") feed base)
      (fun _ => Compacted False (fun _ => "") feed base)
      (fun _ => Raised (Kept False (fun _ => "") feed base) True) where
  starts i q prog hq hprog := by
    obtain ⟨minFiles, rfl⟩ := hprog
    exact ensures_compactPartition (safe_compactionContract _ _ feed base) identity minFiles hq.1
  admits i op c q _ ha := ha
  op_inv i q q' hq hg := by
    obtain ⟨hkept, hstep⟩ := hg hq.1
    exact ⟨hkept, hstep.segments.trans hq.2.1, hstep.staged.trans hq.2.2⟩
  op_rely i j q q' _ hij _ := absurd rfl hij
  returns_inv i a q hq _ := hq
  returns_rely i j a q _ hij _ := absurd rfl hij
  raises_inv i e q hq _ := hq
  raises_rely i j e q _ hij _ := absurd rfl hij
  kill_inv _ q hq := hq
  kill_rely _ j q _ _ := (compactionContract False _ feed base).rely_refl q

theorem preserved_alone (hp : Original p) (hcommits : p.commits = ∅) (hsegments : p.segments = ∅)
    (hs : Reach (compactionRules identity MarkerRead) (Sys.boot Unit p) s) : Preserved p s := by
  have hgood := (sound_alone .vehiclepositions (parquetRows p)).reach
    ⟨kept_original hp .vehiclepositions hcommits hsegments, hsegments, hp.staged⟩ hs
  obtain ⟨hkept, hsegments', hstaged'⟩ := hgood.1
  have hstaged : stagedRows .vehiclepositions s.state = 0 := by
    rw [stagedRows, hstaged']
    rfl
  have heq : s.state.transaction = none → parquetRows s.state = parquetRows p := fun hnone => by
    have hrows := hkept.core.rows_eq hsegments' fun t ht => by
      rw [hnone] at ht
      cases ht
    rwa [hstaged, add_zero] at hrows
  refine ⟨?_, fun output hreturn => heq ?_, fun _ hnone => heq hnone⟩
  · have hle := hkept.core.le_rows
    rwa [hstaged, add_zero, spoolRows_of_empty hsegments', zero_add] at hle
  · exact (hgood.returned hreturn).2 (Option.some_ne_none output)

/-! ### A partition whose spool is not empty -/

/-- The contract of calls that change nothing. -/
def idleContract (p : Partition) : Contract Partition Op Choice :=
  Contract.alone (fun _ _ _ => True) fun q q' => q = p → q' = p

theorem keeps_idleContract (p : Partition) : Keeps (idleContract p) (· = p) True where
  inv q q' hr hq := by
    rw [← hq]
    exact hr.symm
  refl q hq := hq
  fault _ _ _ _ := trivial

/-- A call stays away from such a partition. -/
theorem ensures_idle (hspool : spoolEmpty p = false) (minFiles : ℤ) :
    Ensures (idleContract p) (fun output q => q = p ∧ output = none) (Raised (· = p) True)
      (compactPartition identity minFiles) p := by
  have K := keeps_idleContract p
  have hnone : ∀ q, q = p → Ensures (idleContract p) (fun output q => q = p ∧ output = none)
      (Raised (· = p) True) (.pure (none : Option PartName)) q :=
    fun q hq => Ensures.pure_of K.inv hq fun _ hq => ⟨hq, rfl⟩
  have hstat : Ensures (idleContract p) (fun _ q => q = p) (Raised (· = p) True)
      (fsRead (.stat .partsDirectory) fun q => .ok q.partsDirectory) p :=
    K.read K.inv (fun _ => K.inv) (fun _ hq => hq) (fun _ _ hq _ => hq) (fun _ _ _ _ => trivial) rfl
  refine hstat.bind fun b q hq => ?_
  split
  · exact hnone q hq
  have hfalse : ∀ b : Bool, (idleContract p).Stable fun q => q = p ∧ b = false :=
    fun b q q' hr hq => ⟨K.inv q q' hr hq.1, hq.2⟩
  have hlist : Ensures (idleContract p) (fun b q => q = p ∧ b = false) (Raised (· = p) True)
      (fsRead (.list .spoolDirectory) fun q => .ok (spoolEmpty q)) q :=
    K.read K.inv hfalse (fun _ hq => hq) (fun q b hq hb => by
      cases hb
      exact ⟨hq, by rw [hq, hspool]⟩) (fun _ _ _ _ => trivial) hq
  refine hlist.bind fun b q hq => ?_
  obtain ⟨hq, rfl⟩ := hq
  exact hnone q hq

theorem sound_idle (hspool : spoolEmpty p = false) :
    Sound (compactionRules identity MarkerRead) (· = p) (fun _ => idleContract p)
      (fun _ output q => q = p ∧ output = none) (fun _ => Raised (· = p) True) where
  starts i q prog hq hprog := by
    obtain ⟨minFiles, rfl⟩ := hprog
    rw [hq]
    exact ensures_idle hspool minFiles
  admits i op c q _ _ := trivial
  op_inv i q q' hq hg := hg hq
  op_rely i j q q' _ hij _ := absurd rfl hij
  returns_inv i a q hq _ := hq
  returns_rely i j a q _ hij _ := absurd rfl hij
  raises_inv i e q hq _ := hq
  raises_rely i j e q _ hij _ := absurd rfl hij
  kill_inv _ q hq := hq
  kill_rely _ j q _ _ := (idleContract p).rely_refl q

theorem preserved_idle (hspool : spoolEmpty p = false)
    (hs : Reach (compactionRules identity MarkerRead) (Sys.boot Unit p) s) : Preserved p s := by
  have hstate : s.state = p := ((sound_idle hspool).reach rfl hs).1
  refine ⟨?_, fun _ _ => ?_, fun _ _ => ?_⟩
  · rw [hstate]
  · rw [hstate]
  · rw [hstate]

/-! ### Every run -/

/-- **Compaction preserves rows** in every run in which no call takes the marker of an unfinished
compaction for a missing one. -/
theorem keepsRows (hp : Original p)
    (hs : Reach (compactionRules identity MarkerRead) (Sys.boot Unit p) s) : Preserved p s := by
  cases hspool : spoolEmpty p with
  | false => exact preserved_idle hspool hs
  | true =>
    obtain ⟨hsegments, hcommits, -⟩ := spoolEmpty_iff.mp hspool
    exact preserved_alone hp hcommits hsegments hs

/-! ### A marker that cannot be read -/

/-- Names of compacted files that tell how many sources there were. -/
def sampleIdentity : Identity where
  size file := file.rows.length
  digest sources := if sources.length = 2 then "two" else "three"

/-- Two files of one row each. -/
def samplePartition : Partition where
  partsDirectory := true
  parts := AList.insert (.other "a") ⟨["trip_id"], [[("trip_id", .str "t1")]]⟩
    (AList.insert (.other "b") ⟨["trip_id"], [[("trip_id", .str "t2")]]⟩ ∅)

def sampleCompaction : PartitionProg (Option PartName) := compactPartition sampleIdentity 2

theorem original_samplePartition : Original samplePartition where
  transaction := rfl
  readable n file hfile := by
    have hmem := AList.mem_lookup_iff.mp hfile
    have hentries : samplePartition.parts.entries =
        [⟨.other "a", ⟨["trip_id"], [[("trip_id", .str "t1")]]⟩⟩,
          ⟨.other "b", ⟨["trip_id"], [[("trip_id", .str "t2")]]⟩⟩] := by decide
    rw [hentries] at hmem
    have hschema : ∀ v : Value, Aligned ⟨["trip_id"], [[("trip_id", v)]]⟩ := by
      intro v row hrow c hc
      rw [List.mem_singleton.mp hrow, Row.get, List.lookup_cons]
      have hne : (c == "trip_id") = false := by simpa using hc
      rw [hne]
      rfl
    rcases List.mem_cons.mp hmem with h | h
    · cases h
      exact hschema _
    · cases List.mem_singleton.mp h
      exact hschema _
  staged := rfl

/-- What is left of a call after some choices, and the state. -/
def sampleAfter (cs : List Choice) (p : Partition) :
    PartitionProg (Option PartName) × Partition := sampleCompaction.after cs p

/-- The call is killed after its output is in place. -/
def sampleKilled : Partition := (sampleAfter (List.replicate 19 .ok) samplePartition).2

/-- A call that does not get to read the marker. -/
def sampleUnread : List Choice := [.ok, .ok, .fault 0] ++ List.replicate 40 .ok

/-- A program that returned a path. -/
def returnedPath : PartitionProg (Option PartName) → Bool
  | .pure (some _) => true
  | _ => false

theorem of_returnedPath {prog : PartitionProg (Option PartName)} (h : returnedPath prog = true) :
    ∃ output, prog = .pure (some output) := by
  unfold returnedPath at h
  split at h
  · exact ⟨_, rfl⟩
  · cases h

/-- A killed call, and what the next one may do. -/
theorem reach_sampleAfter {admits : Op → Choice → Partition → Prop}
    (hok : ∀ op q, admits op .ok q) (cs : List Choice)
    (hcs : Prog.Admitted admits cs sampleCompaction sampleKilled) :
    Reach (compactionRules sampleIdentity admits) (Sys.boot Unit samplePartition)
      ⟨(sampleAfter cs sampleKilled).2, fun _ => some (sampleAfter cs sampleKilled).1⟩ := by
  have hboot : Reach (compactionRules sampleIdentity admits) (Sys.boot Unit samplePartition)
      ⟨samplePartition, fun _ => none⟩ := Relation.ReflTransGen.refl
  have hfirst := Reach.after (hboot.tail (Step.start () sampleCompaction rfl ⟨2, rfl⟩)) ()
    (List.replicate 19 .ok) (Function.update_self ..)
    (Prog.admitted_replicate hok 19 _ _)
  have hkilled : Reach (compactionRules sampleIdentity admits) (Sys.boot Unit samplePartition)
      ⟨sampleKilled, fun _ => none⟩ := hfirst.tail (Step.kill ())
  have hsecond := Reach.after (hkilled.tail (Step.start () sampleCompaction rfl ⟨2, rfl⟩)) () cs
    (Function.update_self ..) hcs
  rwa [Function.update_idem, Function.update_eq_const_of_subsingleton] at hsecond

/-- **A marker that cannot be read** makes the next call merge the output with its own sources. -/
theorem not_keepsRows :
    ¬ ∀ p s, Original p → Reach (compactionRules sampleIdentity fun _ _ _ => True)
      (Sys.boot Unit p) s → Preserved p s := by
  intro h
  have hreach := reach_sampleAfter (fun _ _ => trivial) sampleUnread
    (Prog.admitted_of_forall (fun _ _ _ => trivial) _ _ _)
  obtain ⟨output, houtput⟩ := of_returnedPath
    (show returnedPath (sampleAfter sampleUnread sampleKilled).1 = true by decide +kernel)
  have hrows := (h _ _ original_samplePartition hreach).returned output (congrArg some houtput)
  have hcard : (parquetRows (sampleAfter sampleUnread sampleKilled).2).card =
      (parquetRows samplePartition).card := congrArg Multiset.card hrows
  revert hcard
  decide +kernel

/-- A call that reads the marker finishes the killed one. -/
theorem keepsRows_killed :
    sampleKilled.transaction.isSome ∧
      returnedPath (sampleAfter (List.replicate 40 .ok) sampleKilled).1 ∧
      Preserved samplePartition ⟨(sampleAfter (List.replicate 40 .ok) sampleKilled).2,
        fun _ => some (sampleAfter (List.replicate 40 .ok) sampleKilled).1⟩ := by
  have hok : ∀ op q, MarkerRead op .ok q := fun op q _ hc => absurd rfl hc
  exact ⟨by decide +kernel, by decide +kernel, keepsRows original_samplePartition
    (reach_sampleAfter hok _ (Prog.admitted_replicate hok 40 _ _))⟩

end BkkCollector.Storage.CompactionRuns
