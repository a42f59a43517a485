import BkkCollector.Storage.SpoolCommit

/-! # Flushing all partitions

`flush` goes through the partitions of the data directory: first it deals with the commit markers of
each, then it commits the pending segments of those that are not blocked. `ensures_flush`: every
partition keeps its invariant, whatever the other parties do. -/

namespace BkkCollector.Storage.SpoolFlush

open BkkCollector.Logic.Program BkkCollector.Python.Objects BkkCollector.Config
open BkkCollector.Storage.AtomicIo BkkCollector.Storage.ParquetStore
open BkkCollector.Storage.PartitionStore BkkCollector.Storage.PartitionInvariant
open BkkCollector.Storage.PartitionRules BkkCollector.Storage.SpoolCommit

/-! ### Partitions of the data directory -/

theorem components : Components partitionAt modifyAt where
  same key f disk := by simp [partitionAt, modifyAt]
  other key key' f disk hne := by simp [partitionAt, modifyAt, AList.lookup_insert_ne hne]

theorem partitionAt_of_not_mem {key : Key} {disk : Disk} (h : key ∉ disk) :
    partitionAt key disk = {} := by
  rw [partitionAt, AList.lookup_eq_none.mpr h]
  rfl

/-- An assertion about every partition. -/
def Each (A : Key → Partition → Prop) (disk : Disk) : Prop := ∀ key, A key (partitionAt key disk)

/-- The contract of a program on the data directory. -/
abbrev diskContract (C : Key → Contract Partition Op Choice) : Contract Disk DiskOp Choice :=
  Contract.family partitionAt DiskOp.partition C

variable {C : Key → Contract Partition Op Choice} {A : Key → Partition → Prop} {s : Disk}

theorem stable_each (hA : ∀ key, (C key).Stable (A key)) : (diskContract C).Stable (Each A) :=
  fun _ _ hr h key => hA key _ _ (hr key) (h key)

/-- Assertions about one partition and about the others. -/
theorem each_of {A B : Key → Partition → Prop} {key : Key} (h : B key (partitionAt key s))
    (hA : ∀ key', key' ≠ key → A key' (partitionAt key' s))
    (hAB : ∀ key' p, key' ≠ key → A key' p → B key' p) : Each B s := by
  intro key'
  by_cases hk : key' = key
  · subst hk
    exact h
  · exact hAB key' _ hk (hA key' hk)

/-- **A program on one partition.** -/
theorem ensures_onPartition {α : Type} (hrefl : ∀ key p, (C key).guarantee p p)
    (hA : ∀ key, (C key).Stable (A key)) {key : Key} {p : PartitionProg α}
    {post : α → Partition → Prop} {exc : PyError → Partition → Prop}
    (h : Ensures (C key) post exc p (partitionAt key s))
    (hs : ∀ key', key' ≠ key → A key' (partitionAt key' s)) :
    Ensures (diskContract C)
      (fun a t => post a (partitionAt key t) ∧ ∀ key', key' ≠ key → A key' (partitionAt key' t))
      (fun e t => exc e (partitionAt key t) ∧ ∀ key', key' ≠ key → A key' (partitionAt key' t))
      (onPartition key p) s :=
  Ensures.component components hrefl hA h hs

/-- Every partition moves by `R`. -/
def Pointwise (R : Partition → Partition → Prop) (disk disk' : Disk) : Prop :=
  ∀ key, R (partitionAt key disk) (partitionAt key disk')

section Footprints

variable {R : Partition → Partition → Prop} (hrefl : ∀ p, R p p)
include hrefl

theorem moves_onPartition {α : Type} {p : PartitionProg α} (h : p.Moves R) (key : Key) :
    (onPartition key p).Moves (Pointwise R) := by
  refine Prog.Moves.zoom (fun f disk hf key' => ?_) h
  by_cases hkey : key' = key
  · subst hkey
    rw [components.same]
    exact hf
  · rw [components.other key key' f disk hkey]
    exact hrefl _

theorem moves_listPartitions : listPartitions.Moves (Pointwise R) :=
  moves_fsRead fun _ _ => hrefl _

theorem moves_listEach {list : Key → PartitionProg (List String)}
    (h : ∀ key, (list key).Moves R) (keys : List Key) :
    (listEach list keys).Moves (Pointwise R) := by
  induction keys with
  | nil => exact trivial
  | cons key keys ih =>
    unfold listEach
    exact (moves_onPartition hrefl (h key) key).bind fun _ => ih.bind fun _ => trivial

end Footprints

/-! ### Listings -/

/-- The listing of the partitions: those it does not have are empty, as far as `B` goes. -/
theorem ensures_listPartitions (hrefl : ∀ key p, (C key).guarantee p p)
    (hA : ∀ key, (C key).Stable (A key)) {B : Key → Partition → Prop}
    (hB : ∀ key, (C key).Stable fun p => A key p ∧ B key p) (hempty : ∀ key, B key {})
    (h : Each A s) :
    Ensures (diskContract C)
      (fun keys t => keys.Nodup ∧ Each (fun key p => A key p ∧ (key ∉ keys → B key p)) t)
      (fun _ => Each A) listPartitions s := by
  have K : Keeps (diskContract C) (Each A) True :=
    ⟨stable_each hA, fun t key => hrefl key _, fun _ _ _ _ => trivial⟩
  have hstable : ∀ keys : List Key, (diskContract C).Stable fun t =>
      keys.Nodup ∧ Each (fun key p => A key p ∧ (key ∉ keys → B key p)) t := by
    intro keys t u hr ht
    refine ⟨ht.1, fun key => ⟨hA key _ _ (hr key) (ht.2 key).1, fun hnot => ?_⟩⟩
    exact (hB key _ _ (hr key) ⟨(ht.2 key).1, (ht.2 key).2 hnot⟩).2
  refine (K.read K.inv hstable (fun _ h => h) (fun t keys ht hkeys => ?_)
    (fun t e _ he => by cases he) h).mono (fun _ _ h => h) fun _ _ h => h.1
  cases hkeys
  refine ⟨(List.perm_insertionSort _ _).nodup_iff.mpr t.keys_nodup, fun key => ⟨ht key, ?_⟩⟩
  intro hnot
  rw [(List.perm_insertionSort _ _).mem_iff, ← AList.mem_keys] at hnot
  rw [partitionAt_of_not_mem hnot]
  exact hempty key

/-- The listings of one directory of each partition; `B` says what a listing is worth, and `I` is
what keeps that true. -/
theorem ensures_listEach {I : Key → Partition → Prop} (hrefl : ∀ key p, (C key).guarantee p p)
    {B : Key → List String → Partition → Prop} {list : Key → PartitionProg (List String)}
    (hB : ∀ key names p q, I key p → (C key).rely p q → B key names p → B key names q)
    (hlist : ∀ key P p, (C key).Stable P → (∀ q, P q → I key q) → P p →
      Ensures (C key) (fun names q => P q ∧ B key names q) (fun _ => P) (list key) p)
    (keys : List Key) (hA : ∀ key, (C key).Stable (A key)) (hI : ∀ key p, A key p → I key p)
    (h : Each A s) :
    Ensures (diskContract C)
      (fun groups t => groups.map Prod.fst = keys ∧
        Each (fun key p => A key p ∧ ∀ names, (key, names) ∈ groups → B key names p) t)
      (fun _ => Each A) (listEach list keys) s := by
  induction keys generalizing A s with
  | nil =>
    exact Ensures.pure_of (stable_each hA) h fun t ht =>
      ⟨rfl, fun key => ⟨ht key, fun names hn => absurd hn List.not_mem_nil⟩⟩
  | cons key keys ih =>
    refine ((ensures_onPartition hrefl hA (hlist key _ _ (hA key) (hI key) (h key))
      fun key' _ => h key').mono (fun _ _ h => h) fun _ t ht => each_of ht.1 ht.2 fun _ _ _ h => h).bind fun names t ht => ?_
    -- the listing of this partition stays true while the others are listed
    have hA' : ∀ key', (C key').Stable fun p => A key' p ∧ (key' = key → B key' names p) :=
      fun key' p q hr hp => ⟨hA key' p q hr hp.1, fun hk =>
        hB key' names p q (hI key' p hp.1) hr (hp.2 hk)⟩
    refine ((ih hA' (fun key' p hp => hI key' p hp.1) (each_of ⟨ht.1.1, fun _ => ht.1.2⟩ ht.2
      fun key' p hk hp => ⟨hp, fun h => absurd h hk⟩)).mono (fun _ _ h => h)
      fun _ t ht key' => (ht key').1).bind fun groups t ht => ?_
    have hstable : (diskContract C).Stable fun t => groups.map Prod.fst = keys ∧
        Each (fun key' p => (A key' p ∧ (key' = key → B key' names p)) ∧
          ∀ names', (key', names') ∈ groups → B key' names' p) t := fun t u hr ht =>
      ⟨ht.1, fun key' => ⟨hA' key' _ _ (hr key') (ht.2 key').1, fun names' hn =>
        hB key' names' _ _ (hI key' _ (ht.2 key').1.1) (hr key') ((ht.2 key').2 names' hn)⟩⟩
    refine Ensures.pure_of hstable ht fun u hu => ⟨by rw [List.map_cons, hu.1], fun key' =>
      ⟨(hu.2 key').1.1, fun names' hn => ?_⟩⟩
    rcases List.mem_cons.mp hn with heq | hn
    · obtain ⟨rfl, rfl⟩ := Prod.mk.inj heq
      exact (hu.2 _).1.2 rfl
    · exact (hu.2 key').2 names' hn

/-! ### Recovering -/

section Flush

variable {digest : List String → String} {F : Prop}
  (W : ∀ key, Party (C key) (Inv digest key.1 0) F WorkerRely WorkerStep)
  (hdigest : digest.Injective)

/-- The invariant of a partition of the data directory. -/
abbrev SpoolInv (digest : List String → String) (key : Key) (p : Partition) : Prop :=
  Inv digest key.1 0 p

include W

theorem stable_spoolInv (key : Key) : (C key).Stable (SpoolInv digest key) := (W key).inv

/-- A sorted listing of names. -/
theorem ensures_listNames {names : Partition → List String} (hnodup : ∀ p, (names p).Nodup)
    {op : Op} (key : Key) (P : Partition → Prop) (p : Partition) (hP : (C key).Stable P)
    {B : List String → Partition → Prop}
    (hB : ∀ l t u, P t → (C key).rely t u → B l t → B l u)
    (hok : ∀ t l, P t → l.Nodup → (∀ n, n ∈ l ↔ n ∈ names t) → B l t) (h : P p) :
    Ensures (C key) (fun l q => P q ∧ B l q) (fun _ => P)
      (fsRead op fun p => .ok ((names p).insertionSort (· ≤ ·))) p := by
  have K : Keeps (C key) P True := ⟨hP, (W key).refl, fun _ _ _ _ => trivial⟩
  refine (K.read hP (fun l t u hr ht => ⟨hP t u hr ht.1, hB l t u ht.1 hr ht.2⟩) (fun _ h => h)
    (fun t l ht hl => ⟨ht, ?_⟩) (fun t e _ he => by cases he) h).mono (fun _ _ h => h)
    fun _ _ h => h.1
  cases hl
  exact hok t _ ht ((List.perm_insertionSort _ _).nodup_iff.mpr (hnodup t))
    fun n => (List.perm_insertionSort _ _).mem_iff

/-- A program on one partition of which both outcomes are handed over. -/
theorem ensures_attempt {α : Type} (hA : ∀ key, (C key).Stable (A key)) {key : Key}
    {p : PartitionProg α} (post : Except PyError α → Partition → Prop)
    (h : Ensures (C key) (fun a => post (.ok a)) (fun e => post (.error e)) p (partitionAt key s))
    (hs : ∀ key', key' ≠ key → A key' (partitionAt key' s)) {exc : PyError → Disk → Prop} :
    Ensures (diskContract C)
      (fun r t => post r (partitionAt key t) ∧ ∀ key', key' ≠ key → A key' (partitionAt key' t))
      exc (onPartition key p).attempt s :=
  (ensures_onPartition (fun key => (W key).refl) hA h hs).attempt

/-- **The markers of one partition** are dealt with, or it is blocked. -/
theorem ensures_recoverMarkers (hdigest : digest.Injective) (key : Key)
    (hA : ∀ key, (C key).Stable (A key)) {digests : List String} (hnodup : digests.Nodup)
    {acc : FlushResult × List Key}
    (h : SpoolInv digest key (partitionAt key s) ∧
      (∀ d ∈ digests, d ∈ (partitionAt key s).commits) ∧
        (key ∈ acc.2 ∨ ∀ d ∈ (partitionAt key s).commits, d ∈ digests))
    (hs : ∀ key', key' ≠ key → A key' (partitionAt key' s)) {exc : PyError → Disk → Prop} :
    Ensures (diskContract C)
      (fun acc' t => ((∀ k ∈ acc.2, k ∈ acc'.2) ∧ (F ∨ acc' = acc)) ∧
        (SpoolInv digest key (partitionAt key t) ∧
          (key ∈ acc'.2 ∨ ∀ d, d ∉ (partitionAt key t).commits)) ∧
        ∀ key', key' ≠ key → A key' (partitionAt key' t))
      exc (recoverMarkers key digests acc) s := by
  induction digests generalizing acc s with
  | nil =>
    obtain ⟨hI, -, hblocked⟩ := h
    have hstable : (diskContract C).Stable fun t =>
        (SpoolInv digest key (partitionAt key t) ∧
          (key ∈ acc.2 ∨ ∀ d, d ∉ (partitionAt key t).commits)) ∧
        ∀ key', key' ≠ key → A key' (partitionAt key' t) := by
      refine fun t u hr ht => ⟨⟨(W key).inv _ _ (hr key) ht.1.1, ht.1.2.imp_right fun hno => ?_⟩,
        fun key' hk => hA key' _ _ (hr key') (ht.2 key' hk)⟩
      rw [((W key).relies _ _ ht.1.1 (hr key)).commits]
      exact hno
    exact Ensures.pure_of hstable ⟨⟨hI, hblocked.imp_right fun hno d hd =>
      List.not_mem_nil (hno d hd)⟩, hs⟩ fun t ht => ⟨⟨fun _ hk => hk, Or.inr rfl⟩, ht⟩
  | cons d digests ih =>
    obtain ⟨hI, hmem, hblocked⟩ := h
    obtain ⟨hd, hdigests⟩ := List.nodup_cons.mp hnodup
    set cs := (partitionAt key s).commits with hcs
    have hrecover : Ensures (C key) (fun _ => Markers digest key.1 0 (cs.erase d))
        (Raised (Markers digest key.1 0 cs) F) (recoverCommit d) (partitionAt key s) :=
      ensures_recoverCommit (W key) hdigest ⟨hI, rfl⟩ (hmem d (List.mem_cons_self ..))
    refine Ensures.bind (ensures_attempt W hA
      (fun r p => Markers digest key.1 0 (if r.isOk then cs.erase d else cs) p ∧ (r.isOk ∨ F))
      (hrecover.mono (fun _ _ h => ⟨h, Or.inl rfl⟩) fun _ _ h => ⟨h.1, Or.inr h.2⟩) hs)
      fun r t ht => ?_
    obtain ⟨⟨⟨hI', hcommits⟩, hfault⟩, ht⟩ := ht
    have hleft : ∀ x ∈ digests, x ≠ d := fun x hx hxd => hd (hxd ▸ hx)
    cases r with
    | ok a =>
      refine ih hdigests ⟨hI', fun x hx => ?_, hblocked.imp_right fun hno x hx => ?_⟩ ht
      · rw [hcommits]
        exact AList.mem_erase.mpr ⟨hleft x hx, hmem x (List.mem_cons_of_mem _ hx)⟩
      · rw [hcommits] at hx
        obtain ⟨hxd, hx⟩ := AList.mem_erase.mp hx
        exact (List.mem_cons.mp (hno x hx)).resolve_left hxd
    | error e =>
      refine Ensures.mono (ih hdigests ⟨hI', fun x hx => ?_, Or.inl (List.mem_insert_self ..)⟩ ht)
        (fun acc' u hu => ⟨⟨fun k hk => hu.1.1 k (List.mem_insert_of_mem hk),
          Or.inl (hfault.resolve_left Bool.false_ne_true)⟩, hu.2⟩) fun _ _ h => h
      rw [hcommits]
      exact hmem x (List.mem_cons_of_mem _ hx)

/-- Where the recovery stands: `groups` are the markers still to be looked at. -/
def Recovering (digest : List String → String) (groups : List (Key × List String))
    (blocked : List Key) (key : Key) (p : Partition) : Prop :=
  SpoolInv digest key p ∧
    (∀ names, (key, names) ∈ groups → names.Nodup ∧ ∀ d ∈ names, d ∈ p.commits) ∧
    (key ∈ blocked ∨ ∀ d ∈ p.commits, ∃ names, (key, names) ∈ groups ∧ d ∈ names)

theorem stable_recovering (groups : List (Key × List String)) (blocked : List Key) (key : Key) :
    (C key).Stable (Recovering digest groups blocked key) := by
  refine (W key).stable fun p q _ hr hp => ?_
  rw [hr.commits]
  exact hp

/-- **The recovery of all partitions**: where it fails, the partition is blocked. -/
theorem ensures_recoverCommits (hdigest : digest.Injective) {groups : List (Key × List String)}
    (hnodup : (groups.map Prod.fst).Nodup) {acc : FlushResult × List Key}
    (h : Each (Recovering digest groups acc.2) s) {exc : PyError → Disk → Prop} :
    Ensures (diskContract C)
      (fun acc' t => Each (Recovering digest [] acc'.2) t ∧ (F ∨ acc' = acc)) exc
      (recoverCommits groups acc) s := by
  induction groups generalizing acc s with
  | nil =>
    exact Ensures.pure_of (stable_each (stable_recovering W [] acc.2)) h
      fun _ h => ⟨h, Or.inr rfl⟩
  | cons group groups ih =>
    obtain ⟨key, digests⟩ := group
    rw [List.map_cons, List.nodup_cons] at hnodup
    have hkey : ∀ names, (key, names) ∉ groups := fun names hn =>
      hnodup.1 (List.mem_map.mpr ⟨_, hn, rfl⟩)
    obtain ⟨hI, hlisted, hblocked⟩ := h key
    obtain ⟨hdigests, hmem⟩ := hlisted digests (List.mem_cons_self ..)
    refine (ensures_recoverMarkers W hdigest key
      (stable_recovering W ((key, digests) :: groups) acc.2) hdigests
      ⟨hI, hmem, hblocked.imp_right fun hno d hd => ?_⟩ fun key' _ => h key').bind
      fun acc' t ht => (ih hnodup.2 ?_).mono (fun acc'' u hu => ⟨hu.1, ?_⟩) fun _ _ h => h
    · obtain ⟨names, hn, hdn⟩ := hno d hd
      obtain ⟨-, rfl⟩ := Prod.mk.inj ((List.mem_cons.mp hn).resolve_right (hkey names))
      exact hdn
    · obtain ⟨⟨hmono, -⟩, ⟨hI, hdone⟩, hothers⟩ := ht
      refine each_of ⟨hI, fun names hn => absurd hn (hkey names), hdone.imp_right fun hno d hd =>
        absurd hd (hno d)⟩ hothers fun key' p hk hp => ⟨hp.1, fun names hn =>
          hp.2.1 names (List.mem_cons_of_mem _ hn), ?_⟩
      refine hp.2.2.imp (hmono key') fun hno d hd => ?_
      obtain ⟨names, hn, hdn⟩ := hno d hd
      rcases List.mem_cons.mp hn with heq | hn
      · exact absurd (Prod.mk.inj heq).1 hk
      · exact ⟨names, hn, hdn⟩
    · rcases hu.2 with hF | rfl
      · exact Or.inl hF
      · exact ht.1.2

/-! ### Committing -/

omit W in
theorem maxSegmentsPerCommit_pos : 0 < maxSegmentsPerCommit := by decide

omit W in
/-- The batches of a partition are its segments, in order, and none is empty. -/
theorem batches_spec {fuel : ℕ} {segments : List String} (h : segments.length ≤ fuel) :
    (batches fuel segments).flatten = segments ∧ ∀ batch ∈ batches fuel segments, batch ≠ [] := by
  induction fuel generalizing segments with
  | zero =>
    obtain rfl := List.eq_nil_of_length_eq_zero (Nat.le_zero.mp h)
    simp [batches]
  | succ fuel ih =>
    cases segments with
    | nil => simp [batches]
    | cons segment segments =>
      have hpos := maxSegmentsPerCommit_pos
      have hlength : ((segment :: segments).drop maxSegmentsPerCommit).length ≤ fuel := by
        rw [List.length_drop]
        omega
      obtain ⟨hflatten, hne⟩ := ih hlength
      have hbatches : batches (fuel + 1) (segment :: segments) =
          (segment :: segments).take maxSegmentsPerCommit ::
            batches fuel ((segment :: segments).drop maxSegmentsPerCommit) := rfl
      rw [hbatches, List.flatten_cons, hflatten, List.take_append_drop]
      refine ⟨rfl, fun batch hb => ?_⟩
      rcases List.mem_cons.mp hb with rfl | hb
      · simp [List.take_eq_nil_iff, hpos.ne']
      · exact hne batch hb

/-- Nobody stages while the collector flushes. -/
structure Alone (digest : List String → String) (C : Key → Contract Partition Op Choice) :
    Prop where
  rely : ∀ key p q, SpoolInv digest key p → (C key).rely p q → ∀ n ∈ q.segments, n ∈ p.segments
  step : ∀ key p q, SpoolInv digest key p → (C key).guarantee p q →
    SpoolInv digest key q ∧ ∀ n ∈ q.segments, n ∈ p.segments

/-- The partition has no markers, and no segments if nobody stages. -/
def Drained (digest : List String → String) (C : Key → Contract Partition Op Choice)
    (p : Partition) : Prop :=
  (∀ d, d ∉ p.commits) ∧ (Alone digest C → ∀ n, n ∉ p.segments)

/-- The flush is told to stop at some batch. -/
def Stops (shouldStop : Key → List String → Bool) : Prop :=
  ∃ key batch, shouldStop key batch = true

theorem stable_drained (key : Key) :
    (C key).Stable fun p => SpoolInv digest key p ∧ Drained digest C p := by
  refine fun p q hr hp => ⟨(W key).inv p q hr hp.1, ?_, fun hA n hn => ?_⟩
  · rw [((W key).relies p q hp.1 hr).commits]
    exact hp.2.1
  · exact hp.2.2 hA n (hA.rely key p q hp.1 hr n hn)

/-- A batch is committed, and the segments that were there before are still the only ones. -/
theorem ensures_commitBatch (hdigest : digest.Injective) (key : Key) {batch rest : List String}
    (hne : batch ≠ []) (hnodup : batch.Nodup) (hdisjoint : ∀ n ∈ rest, n ∉ batch) {p : Partition}
    (h : SpoolInv digest key p ∧ (∀ d, d ∉ p.commits) ∧ Pending batch p ∧ Pending rest p)
    {excused : Prop}
    (hsegments : excused ∨ (Alone digest C → ∀ n ∈ p.segments, n ∈ batch ++ rest)) :
    Ensures (C key) (fun _ q => SpoolInv digest key q ∧ (∀ d, d ∉ q.commits) ∧ Pending rest q ∧
        (excused ∨ (Alone digest C → ∀ n ∈ q.segments, n ∈ rest)))
      (Raised (SpoolInv digest key) F) (commitSegments digest key.1 batch) p := by
  have hcommit := ensures_commitSegments (W key) hdigest hne hnodup hdisjoint h
  by_cases hA : Alone digest C
  · have htrack := hcommit.track (I := SpoolInv digest key)
      (R := fun p q => ∀ n ∈ q.segments, n ∈ p.segments)
      (fun _ _ _ hst htu n hn => hst n (htu n hn))
      (fun p q hp hr => ⟨(W key).inv p q hr hp, hA.rely key p q hp hr⟩) (hA.step key) h.1
    refine htrack.mono (fun _ q hq => ?_) fun _ _ hq => hq.1
    obtain ⟨⟨hI, hfree, hgone, hpending⟩, hsub⟩ := hq
    refine ⟨hI, hfree, hpending, hsegments.imp_right fun hl _ n hn => ?_⟩
    refine (List.mem_append.mp (hl hA n (hsub n hn))).resolve_left fun hb => ?_
    exact (hgone n hb).2 hn
  · exact hcommit.mono (fun _ q hq => ⟨hq.1, hq.2.1, hq.2.2.2, Or.inr fun hA' => absurd hA' hA⟩)
      fun _ _ hq => hq

/-- What the loop over batches ends with: where nothing fails and it is not told to stop, there is no
new error and the partition is drained. -/
def Batched (digest : List String → String) (C : Key → Contract Partition Op Choice) (F : Prop)
    (shouldStop : Key → List String → Bool) (errors : List String) (r : FlushResult × Bool)
    (p : Partition) : Prop :=
  (F ∨ Stops shouldStop) ∨ r.2 = false ∧ r.1.errors = errors ∧ Drained digest C p

theorem stable_batched (shouldStop : Key → List String → Bool) (errors : List String)
    (r : FlushResult × Bool) (key : Key) (hA : ∀ key, (C key).Stable (A key)) :
    (diskContract C).Stable fun t =>
      (SpoolInv digest key (partitionAt key t) ∧
        Batched digest C F shouldStop errors r (partitionAt key t)) ∧
      ∀ key', key' ≠ key → A key' (partitionAt key' t) := by
  refine fun t u hr ht => ⟨⟨(W key).inv _ _ (hr key) ht.1.1, ht.1.2.imp_right fun hd => ?_⟩,
    fun key' hk => hA key' _ _ (hr key') (ht.2 key' hk)⟩
  exact ⟨hd.1, hd.2.1, (stable_drained W key _ _ (hr key) ⟨ht.1.1, hd.2.2⟩).2⟩

/-- **The batches of one partition** are committed, up to one that fails. -/
theorem ensures_flushBatches (hdigest : digest.Injective) (shouldStop : Key → List String → Bool)
    (key : Key) (hA : ∀ key, (C key).Stable (A key)) {todo : List (List String)}
    (hnodup : todo.flatten.Nodup) (hne : ∀ batch ∈ todo, batch ≠ []) {result : FlushResult}
    (h : SpoolInv digest key (partitionAt key s) ∧
      (∀ d, d ∉ (partitionAt key s).commits) ∧ Pending todo.flatten (partitionAt key s))
    (hsegments : (F ∨ Stops shouldStop) ∨ (Alone digest C →
      ∀ n ∈ (partitionAt key s).segments, n ∈ todo.flatten))
    (hs : ∀ key', key' ≠ key → A key' (partitionAt key' s)) {exc : PyError → Disk → Prop} :
    Ensures (diskContract C)
      (fun r t => (SpoolInv digest key (partitionAt key t) ∧
          Batched digest C F shouldStop result.errors r (partitionAt key t)) ∧
        ∀ key', key' ≠ key → A key' (partitionAt key' t))
      exc (flushBatches digest shouldStop key todo result) s := by
  have hstable := fun errors r => stable_batched (F := F) W shouldStop errors r key hA
  induction todo generalizing result s with
  | nil =>
    refine Ensures.pure_of (hstable result.errors (result, false)) ⟨⟨h.1, ?_⟩, hs⟩ fun _ h => h
    refine hsegments.imp_right fun hnil => ⟨rfl, rfl, h.2.1, fun halone n hn => ?_⟩
    exact absurd (hnil halone n hn) List.not_mem_nil
  | cons batch todo ih =>
    obtain ⟨hI, hfree, hpending⟩ := h
    rw [List.flatten_cons] at hnodup hpending hsegments
    obtain ⟨hbatch, htodo, hdisjoint⟩ := List.nodup_append.mp hnodup
    unfold flushBatches
    split
    · next hstop =>
      exact Ensures.pure_of (hstable _ _) ⟨⟨hI, Or.inl (Or.inr ⟨key, batch, hstop⟩)⟩, hs⟩
        fun _ h => h
    · have hcommit := ensures_commitBatch W hdigest key (hne batch (List.mem_cons_self ..))
        hbatch (fun n hn hn' => hdisjoint n hn' n hn rfl)
        ⟨hI, hfree, fun n hn => hpending n (List.mem_append_left _ hn),
          fun n hn => hpending n (List.mem_append_right _ hn)⟩ hsegments
      have hboth : Ensures (C key) (fun a p => SpoolInv digest key p ∧ ((∀ d, d ∉ p.commits) ∧
          Pending todo.flatten p ∧ ((F ∨ Stops shouldStop) ∨
            (Alone digest C → ∀ n ∈ p.segments, n ∈ todo.flatten))))
          (fun _ p => SpoolInv digest key p ∧ F)
          (commitSegments digest key.1 batch) (partitionAt key s) :=
        hcommit.mono (fun _ _ h => h) fun _ _ h => h
      refine Ensures.bind (ensures_attempt W hA (fun r p => SpoolInv digest key p ∧
        match r with
        | .ok _ => (∀ d, d ∉ p.commits) ∧ Pending todo.flatten p ∧ ((F ∨ Stops shouldStop) ∨
            (Alone digest C → ∀ n ∈ p.segments, n ∈ todo.flatten))
        | .error _ => F) hboth hs) fun r t ht => ?_
      obtain ⟨⟨hI, hr⟩, ht⟩ := ht
      cases r with
      | ok a =>
        obtain ⟨hfree, hpending, hsegments⟩ := hr
        obtain ⟨file, rows⟩ := a
        have hrest : ∀ result' : FlushResult, result'.errors = result.errors →
            Ensures (diskContract C) (fun r t => (SpoolInv digest key (partitionAt key t) ∧
                Batched digest C F shouldStop result.errors r (partitionAt key t)) ∧
              ∀ key', key' ≠ key → A key' (partitionAt key' t)) exc
              (flushBatches digest shouldStop key todo result') t := fun result' herrors =>
          herrors ▸ ih htodo (fun b hb => hne b (List.mem_cons_of_mem _ hb))
            ⟨hI, hfree, hpending⟩ hsegments ht
        exact hrest _ rfl
      | error e =>
        exact Ensures.pure_of (hstable _ _) ⟨⟨hI, Or.inl (Or.inl hr)⟩, ht⟩ fun _ h => h

/-- Where the flush stands: `groups` are the segments still to be committed. -/
def Flushing (digest : List String → String) (groups : List (Key × List String))
    (blocked : List Key) (key : Key) (p : Partition) : Prop :=
  SpoolInv digest key p ∧ ∀ names, (key, names) ∈ groups →
    key ∉ blocked → names.Nodup ∧ (∀ d, d ∉ p.commits) ∧ Pending names p

/-- The markers and the segments that are not listed any more are gone. -/
def Listing (digest : List String → String) (C : Key → Contract Partition Op Choice)
    (groups : List (Key × List String)) (key : Key) (p : Partition) : Prop :=
  (∀ d, d ∉ p.commits) ∧ (Alone digest C → ∀ n ∈ p.segments,
    ∃ names, (key, names) ∈ groups ∧ n ∈ names)

theorem stable_flushing (groups : List (Key × List String)) (blocked : List Key)
    (excused : Prop) (key : Key) :
    (C key).Stable fun p => Flushing digest groups blocked key p ∧
      (excused ∨ (key ∉ blocked → Listing digest C groups key p)) := by
  refine fun p q hr hp => ?_
  obtain ⟨⟨hI, hflushing⟩, hlisting⟩ := hp
  have hr' := (W key).relies p q hI hr
  refine ⟨⟨(W key).inv p q hr hI, fun names hn hkey => ?_⟩,
    hlisting.imp_right fun hl hkey => ⟨?_, fun hA n hn => ?_⟩⟩
  · obtain ⟨hnodup, hfree, hpending⟩ := hflushing names hn hkey
    refine ⟨hnodup, ?_, hpending.of_rely hI hr'⟩
    rw [hr'.commits]
    exact hfree
  · rw [hr'.commits]
    exact (hl hkey).1
  · exact (hl hkey).2 hA n (hA.rely key p q hI hr n hn)

/-- What a flush ends with: where nothing fails and it is not told to stop, there is no error and the
partitions are drained. -/
def Flushed (digest : List String → String) (C : Key → Contract Partition Op Choice) (F : Prop)
    (shouldStop : Key → List String → Bool) (blocked : List Key) (errors : List String)
    (result : FlushResult) (disk : Disk) : Prop :=
  (F ∨ Stops shouldStop) ∨
    result.errors = errors ∧ Each (fun key p => key ∉ blocked → Drained digest C p) disk

theorem stable_flushed (shouldStop : Key → List String → Bool) (blocked : List Key)
    (errors : List String) (result : FlushResult) :
    (diskContract C).Stable fun t => Each (SpoolInv digest) t ∧
      Flushed digest C F shouldStop blocked errors result t := by
  refine fun t u hr ht => ⟨stable_each (stable_spoolInv W) t u hr ht.1, ht.2.imp_right fun hd => ?_⟩
  exact ⟨hd.1, fun key hkey => (stable_drained W key _ _ (hr key) ⟨ht.1 key, hd.2 key hkey⟩).2⟩

/-- **The segments of all partitions** are committed. -/
theorem ensures_flushGroups (hdigest : digest.Injective)
    (shouldStop : Key → List String → Bool) (blocked : List Key)
    {groups : List (Key × List String)} (hnodup : (groups.map Prod.fst).Nodup)
    {result : FlushResult} (h : Each (fun key p => Flushing digest groups blocked key p ∧
      ((F ∨ Stops shouldStop) ∨ (key ∉ blocked → Listing digest C groups key p))) s)
    {exc : PyError → Disk → Prop} :
    Ensures (diskContract C) (fun result' t => Each (SpoolInv digest) t ∧
        Flushed digest C F shouldStop blocked result.errors result' t) exc
      (flushGroups digest shouldStop blocked groups result) s := by
  have hstable := fun errors => stable_flushed (F := F) W shouldStop blocked errors
  induction groups generalizing result s with
  | nil =>
    refine Ensures.pure_of (hstable _ result) ⟨fun key => (h key).1.1, ?_⟩ fun _ h => h
    by_cases hexcused : F ∨ Stops shouldStop
    · exact Or.inl hexcused
    refine Or.inr ⟨rfl, fun key hkey => ?_⟩
    obtain ⟨hfree, hlisted⟩ := (h key).2.resolve_left hexcused hkey
    refine ⟨hfree, fun hA n hn => ?_⟩
    obtain ⟨names, hmem, -⟩ := hlisted hA n hn
    exact List.not_mem_nil hmem
  | cons group groups ih =>
    obtain ⟨key, segments⟩ := group
    rw [List.map_cons, List.nodup_cons] at hnodup
    have hfresh : ∀ names, (key, names) ∉ groups := fun names hn =>
      hnodup.1 (List.mem_map.mpr ⟨_, hn, rfl⟩)
    have hless : ∀ key' p, Flushing digest ((key, segments) :: groups) blocked key' p →
        Flushing digest groups blocked key' p := fun key' p hp =>
      ⟨hp.1, fun names hn => hp.2 names (List.mem_cons_of_mem _ hn)⟩
    have hother : ∀ key' p, key' ≠ key →
        Listing digest C ((key, segments) :: groups) key' p →
        Listing digest C groups key' p := by
      refine fun key' p hk hp => ⟨hp.1, fun hA n hn => ?_⟩
      obtain ⟨names, hmem, hn⟩ := hp.2 hA n hn
      rcases List.mem_cons.mp hmem with heq | hmem
      · exact absurd (Prod.mk.inj heq).1 hk
      · exact ⟨names, hmem, hn⟩
    unfold flushGroups
    split
    · next hkey =>
      refine ih hnodup.2 fun key' => ⟨hless key' _ (h key').1, (h key').2.imp_right fun hl hkey' => ?_⟩
      exact hother key' _ (fun heq => hkey' (heq ▸ hkey)) (hl hkey')
    · next hkey =>
      obtain ⟨⟨hI, hlisted⟩, hlisting⟩ := h key
      obtain ⟨hsegments, hfree, hpending⟩ := hlisted segments (List.mem_cons_self ..) hkey
      obtain ⟨hflatten, hne⟩ := batches_spec (le_refl segments.length)
      refine Ensures.bind (ensures_flushBatches W hdigest shouldStop key
        (stable_flushing W ((key, segments) :: groups) blocked (F ∨ Stops shouldStop))
        (by rw [hflatten]; exact hsegments) hne ⟨hI, hfree, by rw [hflatten]; exact hpending⟩
        (hlisting.imp_right fun hl hA n hn => ?_) fun key' _ => h key') fun r t ht => ?_
      · obtain ⟨names, hmem, hn⟩ := (hl hkey).2 hA n hn
        rcases List.mem_cons.mp hmem with heq | hmem
        · obtain ⟨-, rfl⟩ := Prod.mk.inj heq
          rwa [hflatten]
        · exact absurd hmem (hfresh names)
      obtain ⟨result', stopped⟩ := r
      obtain ⟨⟨hI, hbatched⟩, hothers⟩ := ht
      have hrest : Each (fun key p => Flushing digest groups blocked key p ∧
          ((F ∨ Stops shouldStop) ∨ (key ∉ blocked → Listing digest C groups key p))) t := by
        refine each_of (A := fun key' p => Flushing digest ((key, segments) :: groups) blocked key' p ∧
          ((F ∨ Stops shouldStop) ∨
            (key' ∉ blocked → Listing digest C ((key, segments) :: groups) key' p)))
          ⟨⟨hI, fun names hn => absurd hn (hfresh names)⟩, ?_⟩ hothers fun key' p hk hp =>
            ⟨hless key' p hp.1, hp.2.imp_right fun hl hkey' => hother key' p hk (hl hkey')⟩
        exact hbatched.imp_right fun hd _ => ⟨hd.2.2.1, fun hA n hn => absurd hn (hd.2.2.2 hA n)⟩
      dsimp only
      split
      · next hstopped =>
        refine Ensures.pure_of (hstable _ result') ⟨fun key' => (hrest key').1.1,
          Or.inl (hbatched.resolve_right fun hd => ?_)⟩ fun _ h => h
        exact Bool.false_ne_true (hd.1.symm.trans hstopped)
      · refine Ensures.mono (ih hnodup.2 hrest) (fun result'' u hu => ⟨hu.1, ?_⟩) fun _ _ h => h
        rcases hbatched with hexcused | hd
        · exact Or.inl hexcused
        · exact hu.2.imp_right fun hd' => ⟨hd'.1.trans hd.2.1, hd'.2⟩

/-- **A flush keeps every partition in order**, and where nothing fails it drains them. -/
theorem ensures_flush (hdigest : digest.Injective) (force due : Bool)
    (shouldStop : Key → List String → Bool) (h : Each (SpoolInv digest) s) :
    Ensures (diskContract C) (fun result t => Each (SpoolInv digest) t ∧
        (force = true → Flushed digest C F shouldStop [] [] result t))
      (fun _ => Each (SpoolInv digest)) (flush digest force due shouldStop) s := by
  have hrefl : ∀ key p, (C key).guarantee p p := fun key => (W key).refl
  have hinv := stable_spoolInv W
  have hcommits : ∀ key p q, SpoolInv digest key p → (C key).rely p q → q.commits = p.commits :=
    fun key p q hI hr => ((W key).relies p q hI hr).commits
  -- the markers of all partitions
  refine Ensures.bind (ensures_listPartitions hrefl hinv (B := fun _ p => ∀ d, d ∉ p.commits)
    (fun key p q hr hp => ⟨hinv key p q hr hp.1, by
      rw [hcommits key p q hp.1 hr]
      exact hp.2⟩) (fun _ d => AList.notMem_empty d) h) fun keys t ht => ?_
  obtain ⟨hkeys, ht⟩ := ht
  have hunlisted : ∀ key, (C key).Stable fun p =>
      SpoolInv digest key p ∧ (key ∉ keys → ∀ d, d ∉ p.commits) := fun key p q hr hp =>
    ⟨hinv key p q hr hp.1, by
      rw [hcommits key p q hp.1 hr]
      exact hp.2⟩
  refine Ensures.bind ((ensures_listEach hrefl
    (B := fun _ names p => names.Nodup ∧ ∀ d, d ∈ names ↔ d ∈ p.commits)
    (fun key names p q hI hr hp => by rw [hcommits key p q hI hr]; exact hp)
    (fun key P p hP hPI hp => ensures_listNames W (fun p => p.commits.keys_nodup) key P p hP
      (fun l t u ht hr hl => by rw [hcommits key t u (hPI t ht) hr]; exact hl)
      (fun t l _ hl hmem => ⟨hl, hmem⟩) hp)
    keys hunlisted (fun _ _ hp => hp.1) ht).mono (fun _ _ h => h) fun _ t ht key => (ht key).1)
    fun groups t ht => ?_
  obtain ⟨hgroups, ht⟩ := ht
  refine Ensures.bind (ensures_recoverCommits W hdigest
    (by rw [hgroups]; exact hkeys) fun key => ?_) fun acc t ht => ?_
  · obtain ⟨⟨hI, hnot⟩, hlisted⟩ := ht key
    refine ⟨hI, fun names hn => ⟨(hlisted names hn).1, fun d => ((hlisted names hn).2 d).mp⟩,
      Or.inr fun d hd => ?_⟩
    by_cases hk : key ∈ keys
    · rw [← hgroups] at hk
      obtain ⟨⟨key', names⟩, hn, rfl⟩ := List.mem_map.mp hk
      exact ⟨names, hn, ((hlisted names hn).2 d).mpr hd⟩
    · exact absurd hd (hnot hk d)
  obtain ⟨result, blocked⟩ := acc
  obtain ⟨ht, hresult⟩ := ht
  dsimp only at ht ⊢
  split
  · next hskip =>
    refine Ensures.pure_of (stable_each hinv) (fun key => (ht key).1) fun _ h => ⟨h, fun hforce => ?_⟩
    rw [hforce] at hskip
    cases hskip
  -- the segments of all partitions
  have hrecovering := stable_recovering W [] blocked
  have hunlisted' : ∀ key, (C key).Stable fun p => Recovering digest [] blocked key p ∧
      (Alone digest C → ∀ n, n ∉ p.segments) := fun key p q hr hp =>
    ⟨hrecovering key p q hr hp.1, fun hA n hn => hp.2 hA n (hA.rely key p q hp.1.1 hr n hn)⟩
  refine Ensures.bind ((ensures_listPartitions hrefl hrecovering
    (B := fun _ p => Alone digest C → ∀ n, n ∉ p.segments) hunlisted'
    (fun _ _ n => AList.notMem_empty n) ht).mono (fun _ _ h => h) fun _ t ht key => (ht key).1)
    fun keys t ht => ?_
  obtain ⟨hkeys, ht⟩ := ht
  have hrest : ∀ key, (C key).Stable fun p => Recovering digest [] blocked key p ∧
      (key ∉ keys → Alone digest C → ∀ n, n ∉ p.segments) := fun key p q hr hp =>
    ⟨hrecovering key p q hr hp.1, fun hk => (hunlisted' key p q hr ⟨hp.1, hp.2 hk⟩).2⟩
  refine Ensures.bind ((ensures_listEach hrefl (I := SpoolInv digest)
    (B := fun _ names p => names.Nodup ∧ Pending names p ∧
      (Alone digest C → ∀ n ∈ p.segments, n ∈ names))
    (fun key names p q hI hr hp => ⟨hp.1, hp.2.1.of_rely hI ((W key).relies p q hI hr),
      fun hA n hn => hp.2.2 hA n (hA.rely key p q hI hr n hn)⟩)
    (fun key P p hP hPI hp => ensures_listNames W (fun p => p.segments.keys_nodup) key P p hP
      (fun l t u ht hr hl => ⟨hl.1, hl.2.1.of_rely (hPI t ht) ((W key).relies t u (hPI t ht) hr),
        fun hA n hn => hl.2.2 hA n (hA.rely key t u (hPI t ht) hr n hn)⟩)
      (fun t l _ hl hmem => ⟨hl, fun n hn => (hmem n).mp hn, fun _ n hn => (hmem n).mpr hn⟩) hp)
    keys hrest (fun _ _ hp => hp.1.1) ht).mono (fun _ _ h => h) fun _ t ht key => (ht key).1.1)
    fun groups t ht => ?_
  obtain ⟨hgroups, ht⟩ := ht
  have hfree : ∀ key, key ∉ blocked → ∀ d, d ∉ (partitionAt key t).commits := by
    intro key hkey d hd
    obtain ⟨names, hn, -⟩ := (ht key).1.1.2.2.resolve_left hkey d hd
    exact List.not_mem_nil hn
  refine Ensures.mono (ensures_flushGroups W hdigest shouldStop blocked
    (by rw [hgroups]; exact hkeys) fun key => ?_) (fun result' u hu => ⟨hu.1, fun _ => ?_⟩)
    fun _ _ h => h
  · obtain ⟨⟨⟨hI, -, hdone⟩, hunlisted⟩, hlisted⟩ := ht key
    refine ⟨⟨hI, fun names hn hkey => ⟨(hlisted names hn).1, hfree key hkey, (hlisted names hn).2.1⟩⟩,
      Or.inr fun hkey => ⟨hfree key hkey, fun hA n hn => ?_⟩⟩
    by_cases hk : key ∈ keys
    · rw [← hgroups] at hk
      obtain ⟨⟨key', names⟩, hmem, rfl⟩ := List.mem_map.mp hk
      exact ⟨names, hmem, (hlisted names hmem).2.2 hA n hn⟩
    · exact absurd hn (hunlisted hk hA n)
  · rcases hresult with hF | heq
    · exact Or.inl (Or.inl hF)
    · obtain ⟨rfl, rfl⟩ := Prod.mk.inj heq
      exact hu.2

end Flush

/-! ### A flush without faults -/

theorem run_onPartition {α : Type} (key : Key) (p : PartitionProg α) (disk : Disk) :
    (run (onPartition key p) disk).1 = (run p (partitionAt key disk)).1 ∧
      partitionAt key (run (onPartition key p) disk).2 = (run p (partitionAt key disk)).2 := by
  induction p generalizing disk with
  | pure a => exact ⟨rfl, rfl⟩
  | throw e => exact ⟨rfl, rfl⟩
  | act op eff next ih =>
    have h := ih .ok (partitionAt key disk) (modifyAt key (eff .ok) disk)
    rw [components.same] at h
    exact h

theorem returns_onPartition {α : Type} (key : Key) {p : PartitionProg α} (hp : Returns p) :
    Returns (onPartition key p) := by
  intro disk
  obtain ⟨a, t, ha⟩ := hp (partitionAt key disk)
  obtain ⟨hresult, -⟩ := run_onPartition key p disk
  rw [ha] at hresult
  exact ⟨a, _, Prod.ext hresult rfl⟩

theorem returns_listEach {list : Key → PartitionProg (List String)} (h : ∀ key, Returns (list key))
    (keys : List Key) : Returns (listEach list keys) := by
  induction keys with
  | nil => exact returns_pure _
  | cons key keys ih =>
    exact returns_bind (returns_onPartition key (h key)) fun _ => returns_bind ih fun _ =>
      returns_pure _

theorem returns_recoverMarkers (key : Key) (digests : List String) (acc : FlushResult × List Key) :
    Returns (recoverMarkers key digests acc) := by
  induction digests generalizing acc with
  | nil => exact returns_pure _
  | cons d digests ih =>
    refine returns_bind (returns_attempt _) fun r => ?_
    cases r with
    | ok a => exact ih _
    | error e => exact ih _

theorem returns_recoverCommits (groups : List (Key × List String))
    (acc : FlushResult × List Key) : Returns (recoverCommits groups acc) := by
  induction groups generalizing acc with
  | nil => exact returns_pure _
  | cons group groups ih =>
    exact returns_bind (returns_recoverMarkers _ _ _) fun acc => ih acc

theorem returns_flushBatches {digest : List String → String}
    (shouldStop : Key → List String → Bool) (key : Key)
    (todo : List (List String)) (result : FlushResult) :
    Returns (flushBatches digest shouldStop key todo result) := by
  induction todo generalizing result with
  | nil => exact returns_pure _
  | cons batch todo ih =>
    unfold flushBatches
    split
    · exact returns_pure _
    · refine returns_bind (returns_attempt _) fun r => ?_
      cases r with
      | ok a => exact ih _
      | error e => exact returns_pure _

theorem returns_flushGroups {digest : List String → String}
    (shouldStop : Key → List String → Bool) (blocked : List Key)
    (groups : List (Key × List String)) (result : FlushResult) :
    Returns (flushGroups digest shouldStop blocked groups result) := by
  induction groups generalizing result with
  | nil => exact returns_pure _
  | cons group groups ih =>
    unfold flushGroups
    split
    · exact ih _
    · refine returns_bind (returns_flushBatches _ _ _ _) fun r => ?_
      obtain ⟨result', stopped⟩ := r
      dsimp only
      split
      · exact returns_pure _
      · exact ih _

/-- A flush raises only if a listing fails. -/
theorem returns_flush {digest : List String → String} (force due : Bool) (shouldStop : Key → List String → Bool) :
    Returns (flush digest force due shouldStop) := by
  have hlist : Returns listPartitions := returns_fsRead _ _
  refine returns_bind hlist fun keys => ?_
  refine returns_bind (returns_listEach (fun _ => returns_fsRead _ _) keys) fun markers => ?_
  refine returns_bind (returns_recoverCommits _ _) fun acc => ?_
  obtain ⟨result, blocked⟩ := acc
  dsimp only
  split
  · exact returns_pure _
  · refine returns_bind hlist fun keys => ?_
    exact returns_bind (returns_listEach (fun _ => returns_fsRead _ _) keys) fun groups =>
      returns_flushGroups _ _ _ _

end BkkCollector.Storage.SpoolFlush
