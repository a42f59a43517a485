import BkkCollector.Storage.PartitionRules

/-! # Staging, committing and recovering

What the programs of the spool do to one partition, whatever the other parties do there meanwhile:
`stage` adds a segment, `commitSegments` turns a batch of pending segments into a Parquet file, and
`recoverCommit` finishes or gives up a commit that was cut off. All of them keep the invariant, also
where they raise, and they raise only if a file operation fails. -/

namespace BkkCollector.Storage.SpoolCommit

open BkkCollector.Logic.MergeStore BkkCollector.Logic.Program BkkCollector.Python.Objects
open BkkCollector.Config
open BkkCollector.Storage.AtomicIo BkkCollector.Storage.ParquetStore
open BkkCollector.Storage.PartitionStore BkkCollector.Storage.PartitionInvariant
open BkkCollector.Storage.PartitionRules

/-- **The invariant of a partition** of the spool. -/
structure Inv (digest : List String → String) (feed : Feed) (base : Multiset (String → Value))
    (p : Partition) : Prop where
  core : Core feed base p
  spooled : Spooled digest p

variable {digest : List String → String} {feed : Feed} {base : Multiset (String → Value)}
  {C : Contract Partition Op Choice} {F : Prop} {s : Partition}

/-- Temporary files and directories do not matter. -/
theorem Inv.files {p : Partition} (h : Inv digest feed base p) (n : ℕ) (b : Bool) :
    Inv digest feed base { p with spoolTemporaries := n, partsDirectory := b } where
  core := ⟨h.core.wf, h.core.visible, h.core.commits, h.core.transaction, h.core.aligned⟩
  spooled := ⟨h.spooled.markers, h.spooled.segments, h.spooled.known, h.spooled.staged,
    h.spooled.returned, h.spooled.returnedNodup⟩

/-- A partition without files. -/
theorem inv_empty (digest : List String → String) (feed : Feed) : Inv digest feed 0 {} where
  core :=
    { wf :=
        { sources := fun k m hm => by cases k <;> cases hm
          expected := fun k m hm => by cases k <;> cases hm
          output := fun k m hm => by cases k <;> cases hm
          disjoint := fun k _ m _ hm => by cases k <;> cases hm
          outputs := fun k _ m _ hm => by cases k <;> cases hm
          apart := fun k _ m _ hm => by cases k <;> cases hm }
      visible := rfl
      commits := fun d m hm => by cases hm
      transaction := fun t ht => by cases ht
      aligned := fun n file hf => by cases hf }
  spooled :=
    { markers := fun d m hm => by cases hm
      segments := fun n hn => absurd hn (AList.notMem_empty n)
      known := fun l d hk => by
        rcases hk with hn | ⟨t, ht, -⟩
        · exact absurd hn (AList.notMem_empty _)
        · cases ht
      staged := List.nodup_nil
      returned := fun s hs => absurd hs List.not_mem_nil
      returnedNodup := List.nodup_nil }

/-! ### What stays under a commit -/

section Stable

variable {t : Partition}

theorem mem_segments_of_rely (hs : Inv digest feed base s) (hr : WorkerRely s t) {n : String}
    (hn : n ∈ s.segments) : n ∈ t.segments := by
  rw [← AList.lookup_isSome, hr.segments n (hs.spooled.segments n hn)]
  exact AList.lookup_isSome.mpr hn

theorem not_mem_segments_of_rely (hr : WorkerRely s t) {n : String} (hn : n ∈ stagedNames s)
    (hnot : n ∉ s.segments) : n ∉ t.segments := by
  rw [← AList.lookup_eq_none, hr.segments n hn]
  exact AList.lookup_eq_none.mpr hnot

theorem valid_of_rely (hr : WorkerRely s t) {d : String} {m : CommitMarker}
    (hm : s.commits.lookup d = some m) {n : ℕ} (hv : Valid s m.output n) : Valid t m.output n := by
  rw [Valid, hr.outputs d m hm]
  exact hv

theorem not_valid_of_rely (hr : WorkerRely s t) {d : String} {m : CommitMarker}
    (hm : s.commits.lookup d = some m) {n : ℕ} (hv : ¬ Valid s m.output n) :
    ¬ Valid t m.output n := by
  rw [Valid, hr.outputs d m hm]
  exact hv

end Stable

/-! ### Steps of a commit -/

section Steps

variable {d : String} {m : CommitMarker}

theorem WorkerStep.commits {p : Partition} (commits : AList fun _ : String => CommitMarker)
    (n : ℕ) : WorkerStep p { p with commits := commits, spoolTemporaries := n } :=
  ⟨rfl, rfl, rfl, fun _ h => h, fun h => h, fun _ _ h => h, fun _ h h' => absurd h h'⟩

theorem WorkerStep.unlinkSegment {p : Partition} (n : String) :
    WorkerStep p { p with segments := p.segments.erase n } :=
  ⟨rfl, rfl, rfl, fun _ h => (AList.mem_erase.mp h).2, fun h => h, fun _ _ h => h,
    fun _ h h' => absurd h h'⟩

/-- The output of a marker that is not in place is a new file, and no source of a compaction. -/
theorem Inv.output_fresh {p : Partition} (h : Inv digest feed base p)
    (hm : p.commits.lookup d = some m) (hv : ¬ Valid p m.output m.expectedRows) :
    m.output ∉ p.parts ∧ ∀ tr, p.transaction = some tr → m.output ∉ tr.sources := by
  have hmerge : (store feed p).merges (some d) = some (commitMerge m) := by
    rw [merges_some, hm]
    rfl
  have hi : ¬ (store feed p).Installed (commitMerge m) := fun hi => hv ((installed_iff rfl).mp hi)
  refine ⟨fun hmem => ?_, fun tr htr hmem => ?_⟩
  · exact inr_mem_commitMerge (h.core.wf.output _ _ hmerge hi (inr_mem_files.mpr hmem))
  · have hnone : (store feed p).merges none = some (transactionMerge tr) := by
      rw [merges_none, htr]
      rfl
    exact h.core.wf.apart _ none _ _ hmerge hnone (by simp) hi (inr_mem_transactionMerge.mpr hmem)

theorem Inv.installStep {p : Partition} (h : Inv digest feed base p)
    (hm : p.commits.lookup d = some m) (hv : ¬ Valid p m.output m.expectedRows)
    (file : ParquetFile) : WorkerStep p { p with parts := p.parts.insert m.output file } where
  staged := rfl
  returned := rfl
  transaction := rfl
  segments _ hn := hn
  directory hd := hd
  parts n f hf := by
    have hne : n ≠ m.output := by
      rintro rfl
      exact (h.output_fresh hm hv).1 (AList.lookup_isSome.mp (by rw [hf]; rfl))
    exact (AList.lookup_insert_ne hne).trans hf
  fresh n hn hn' := by
    obtain rfl := ((AList.mem_insert _).mp hn).resolve_right hn'
    exact ⟨h.core.commits d m hm, (h.output_fresh hm hv).2⟩

end Steps

/-! ### Closing a marker -/

section Recovery

variable (W : Party C (Inv digest feed base) F WorkerRely WorkerStep)
  {cs : AList fun _ : String => CommitMarker} {d : String} {m : CommitMarker}
include W

/-- The markers of the partition are `cs`. -/
def Markers (digest : List String → String) (feed : Feed) (base : Multiset (String → Value))
    (cs : AList fun _ : String => CommitMarker) (p : Partition) : Prop :=
  Inv digest feed base p ∧ p.commits = cs

/-- The output of a marker is in place, and all its segments but those `left` are gone. -/
def Emptied (cs : AList fun _ : String => CommitMarker) (m : CommitMarker) (left : List String)
    (p : Partition) : Prop :=
  p.commits = cs ∧ Valid p m.output m.expectedRows ∧ ∀ n ∈ m.sources, n ∉ left → n ∉ p.segments

theorem keeps_markers (cs : AList fun _ : String => CommitMarker) :
    Keeps C (Markers digest feed base cs) F :=
  W.and fun _ _ _ hr ht => hr.commits.trans ht

theorem stable_emptied (hm : cs.lookup d = some m) (left : List String) :
    C.Stable fun t => Inv digest feed base t ∧ Emptied cs m left t := by
  refine W.stable fun t u hI hr ht => ⟨hr.commits.trans ht.1, ?_, fun n hn hleft => ?_⟩
  · exact valid_of_rely hr (by rw [ht.1, hm]) ht.2.1
  · obtain ⟨batch, -, -, -, hmarker, hnames⟩ := hI.spooled.markers d m (by rw [ht.1, hm])
    refine not_mem_segments_of_rely hr (hnames n ?_) (ht.2.2 n hn hleft)
    rw [hmarker] at hn
    exact hn

/-- **A marker goes** once it is given up, or its segments are gone. -/
theorem ensures_unlinkCommit (hdigest : digest.Injective) (hm : cs.lookup d = some m)
    {A B : Partition → Prop} (hA : C.Stable A)
    (hB : C.Stable fun t => Markers digest feed base (cs.erase d) t ∧ B t)
    (hmarkers : ∀ t, A t → Markers digest feed base cs t)
    (hdone : ∀ t, A t → Valid t m.output m.expectedRows → ∀ n ∈ m.sources, n ∉ t.segments)
    (hAB : ∀ t, A t → B { t with commits := t.commits.erase d }) (h : A s) :
    Ensures C (fun _ t => Markers digest feed base (cs.erase d) t ∧ B t)
      (Raised (Markers digest feed base cs) F) (unlinkCommit d) s := by
  have hlookup : ∀ t : Partition, t.commits = cs → t.commits.lookup d = some m :=
    fun t ht => by rw [ht, hm]
  refine (keeps_markers W cs).unlink hA hB hmarkers (fun t ht hmissing => ?_)
    (fun t ht _ => ?_) h
  · rw [decide_eq_false_iff_not, ← AList.lookup_isSome, hlookup t (hmarkers t ht).2] at hmissing
    exact absurd rfl hmissing
  · obtain ⟨hI, hcs⟩ := hmarkers t ht
    have hI' : Inv digest feed base { t with commits := t.commits.erase d } :=
      ⟨hI.core.unlinkCommit (hlookup t hcs) (hdone t ht),
        hI.spooled.unlinkCommit hI.core hdigest (hlookup t hcs) (hdone t ht)⟩
    exact ⟨W.allows t _ hI hI' (WorkerStep.commits _ _), ⟨hI', by rw [← hcs]⟩, hAB t ht⟩

/-- The removal of one segment of a marker whose output is in place. -/
theorem unlinkSegment_step (hm : cs.lookup d = some m) {n : String} {left : List String}
    {t : Partition} (hn : n ∈ m.sources) (hI : Inv digest feed base t)
    (ht : Emptied cs m (n :: left) t) :
    C.guarantee t { t with segments := t.segments.erase n } ∧
      Inv digest feed base { t with segments := t.segments.erase n } ∧
        Emptied cs m left { t with segments := t.segments.erase n } := by
  have hI' : Inv digest feed base { t with segments := t.segments.erase n } :=
    ⟨hI.core.unlinkSegment (by rw [ht.1, hm]) ht.2.1 hn, hI.spooled.unlinkSegment n⟩
  refine ⟨W.allows t _ hI hI' (WorkerStep.unlinkSegment n), hI', ht.1, ht.2.1, fun x hx hnot hmem => ?_⟩
  obtain ⟨hxn, hmem'⟩ := AList.mem_erase.mp hmem
  exact ht.2.2 x hx (by simp [hxn, hnot]) hmem'

/-- The segments of a marker are removed as far as they are still there. -/
theorem ensures_recoverSegments (hm : cs.lookup d = some m)
    (h : Inv digest feed base s ∧ Emptied cs m m.sources s) :
    Ensures C (fun _ t => Inv digest feed base t ∧ Emptied cs m [] t)
      (Raised (Markers digest feed base cs) F)
      (unlinkSegments (fun name => ignoreMissing (unlinkSegment name)) m.sources) s := by
  have hstable := stable_emptied W hm
  refine (ensures_unlinkSegments
    (Q := fun left t => (Inv digest feed base t ∧ Emptied cs m left t) ∧ ∀ n ∈ left, n ∈ m.sources)
    (fun t u hr ht => ⟨hstable [] t u hr ht.1, ht.2⟩) (fun n left t ht => ?_)
    ⟨h, fun _ hn => hn⟩).mono (fun _ t ht => ht.1) fun _ _ h => h
  obtain ⟨ht, hleft⟩ := ht
  refine ((keeps_markers W cs).ignoreMissing (hstable (n :: left)) (hstable left)
    (fun u hu => ⟨hu.1, hu.2.1⟩) (fun u hu hmissing => ?_)
    (fun u hu _ _ => unlinkSegment_step W hm (hleft n (List.mem_cons_self ..)) hu.1 hu.2) ht).mono
    (fun _ u hu => ⟨hu, fun x hx => hleft x (List.mem_cons_of_mem _ hx)⟩) fun _ _ h => h
  refine ⟨hu.1, hu.2.1, hu.2.2.1, fun x hx hnot => ?_⟩
  by_cases hxn : x = n
  · subst hxn
    simpa using hmissing
  · exact hu.2.2.2 x hx (by simp [hxn, hnot])

/-! ### Recovery -/

omit W in
/-- `all(source.exists() for source in sources)`. -/
theorem ensures_allPresent {A : Partition → Prop} (K : Keeps C A F) {names : List String}
    (hpresent : ∀ t, A t → ∀ n ∈ names, n ∈ t.segments) (h : A s) :
    Ensures C (fun b t => A t ∧ b = true) (Raised A F) (allPresent names) s := by
  induction names generalizing s with
  | nil => exact Ensures.pure_of K.inv h fun t ht => ⟨ht, rfl⟩
  | cons name names ih =>
    have hstat : Ensures C (fun b t => A t ∧ b = true) (Raised A F)
        (fsRead (.stat (.segment name)) fun p => .ok (decide (name ∈ p.segments))) s :=
      K.read K.inv (fun b t u hr ht => ⟨K.inv t u hr ht.1, ht.2⟩) (fun _ h => h)
        (fun t b ht hb => ⟨ht, by
          cases hb
          exact decide_eq_true (hpresent t ht name (List.mem_cons_self ..))⟩)
        (fun t e _ he => by cases he) h
    refine hstat.bind fun b t ht => ?_
    obtain ⟨ht, rfl⟩ := ht
    exact ih (fun u hu n hn => hpresent u hu n (List.mem_cons_of_mem _ hn)) ht

omit W in
/-- A marker whose output is not in place has all its segments. -/
theorem Inv.present {p : Partition} (h : Inv digest feed base p)
    (hm : p.commits.lookup d = some m) (hv : ¬ Valid p m.output m.expectedRows) :
    ∀ n ∈ m.sources, n ∈ p.segments := by
  intro n hn
  have hsources := h.core.wf.sources (some d) (commitMerge m) (by rw [merges_some, hm]; rfl)
    fun hi => hv ((installed_iff rfl).mp hi)
  exact inl_mem_files.mp (hsources (inl_mem_commitMerge.mpr hn))

/-- **A marker is dealt with**: its segments are removed if its output is in place, and it goes. The
markers are as before if the recovery raises. -/
theorem ensures_recoverCommit (hdigest : digest.Injective) (h : Markers digest feed base cs s)
    (hd : d ∈ cs) :
    Ensures C (fun _ => Markers digest feed base (cs.erase d))
      (Raised (Markers digest feed base cs) F) (recoverCommit d) s := by
  obtain ⟨m, hm⟩ := Option.isSome_iff_exists.mp (AList.lookup_isSome.mpr hd)
  have K := keeps_markers W cs
  have hlookup : ∀ t : Partition, t.commits = cs → t.commits.lookup d = some m :=
    fun t ht => by rw [ht, hm]
  have hmarkers : C.Stable fun t => Markers digest feed base (cs.erase d) t ∧ True :=
    fun t u hr ht => ⟨(keeps_markers W (cs.erase d)).inv t u hr ht.1, trivial⟩
  have hok : ¬ (m.version ≠ 1 ∨ m.sources = []) := by
    obtain ⟨batch, hne, -, -, hmarker, -⟩ := h.1.spooled.markers d m (hlookup s h.2)
    rw [hmarker, commitMarker]
    simpa using hne
  have hread : Ensures C
      (fun r t => Markers digest feed base cs t ∧ (r = some m ∨ r = none ∧ F))
      (Raised (Markers digest feed base cs) F)
      (readJson (.read (.commit d)) none fun p => p.commits.lookup d) s :=
    K.readJson K.inv (fun r t u hr ht => ⟨K.inv t u hr ht.1, ht.2⟩)
      (fun t ht => ⟨ht, Or.inl (hlookup t ht.2)⟩)
      (fun t n ht hn => ⟨ht, Or.inr ⟨rfl, W.fault _ _ _ hn⟩⟩) h
  refine hread.bind fun r t ht => ?_
  obtain ⟨ht, rfl | ⟨rfl, hF⟩⟩ := ht
  · simp only [if_neg hok]
    refine (ensures_validOutput K K.inv (fun _ h => h) m.expectedRows (fun t u ht hr =>
      (W.relies t u ht.1 hr).outputs d m (hlookup t ht.2)) ht).bind fun b t ht => ?_
    obtain ⟨⟨hI, hcs⟩, hb⟩ := ht
    cases b with
    | true =>
      refine (ensures_recoverSegments W hm ⟨hI, hcs, hb.mp rfl, fun n hn hnot =>
        absurd hn hnot⟩).bind fun _ u hu => ?_
      exact (ensures_unlinkCommit W hdigest hm (stable_emptied W hm []) hmarkers
        (fun v hv => ⟨hv.1, hv.2.1⟩) (fun v hv _ n hn => hv.2.2.2 n hn List.not_mem_nil)
        (fun _ _ => trivial) hu).mono (fun _ _ h => h.1) fun _ _ h => h
    | false =>
      have K' : Keeps C (fun t => Inv digest feed base t ∧ (t.commits = cs ∧
          ¬ Valid t m.output m.expectedRows)) F :=
        W.and fun u v _ hr hu => ⟨hr.commits.trans hu.1,
          not_valid_of_rely hr (hlookup u hu.1) hu.2⟩
      refine ((ensures_allPresent K' (fun u hu => hu.1.present (hlookup u hu.2.1) hu.2.2)
        ⟨hI, hcs, fun hv => by cases hb.mpr hv⟩).mono (fun _ _ h => h)
        fun e u hu => ⟨⟨hu.1.1, hu.1.2.1⟩, hu.2⟩).bind fun b u hu => ?_
      obtain ⟨hu, rfl⟩ := hu
      exact (ensures_unlinkCommit W hdigest hm K'.inv hmarkers (fun v hv => ⟨hv.1, hv.2.1⟩)
        (fun v hv hvalid => absurd hvalid hv.2.2) (fun _ _ => trivial) hu).mono
        (fun _ _ h => h.1) fun _ _ h => h
  · exact Ensures.throw_of K.inv ht fun u hu => ⟨hu, hF⟩

end Recovery

/-! ### Committing -/

section Commit

variable (W : Party C (Inv digest feed base) F WorkerRely WorkerStep)
  {cs : AList fun _ : String => CommitMarker} {batch rest : List String}
include W

/-- Segments that are pending. -/
def Pending (names : List String) (p : Partition) : Prop := ∀ n ∈ names, n ∈ p.segments

/-- Segments that were committed. -/
def Gone (names : List String) (p : Partition) : Prop :=
  ∀ n ∈ names, n ∈ stagedNames p ∧ n ∉ p.segments

omit W in
theorem Pending.of_rely {t : Partition} {names : List String} (hs : Inv digest feed base s)
    (hr : WorkerRely s t) (h : Pending names s) : Pending names t :=
  fun n hn => mem_segments_of_rely hs hr (h n hn)

omit W in
theorem Gone.of_rely {t : Partition} {names : List String} (hr : WorkerRely s t)
    (h : Gone names s) : Gone names t :=
  fun n hn => ⟨hr.names n (h n hn).1, not_mem_segments_of_rely hr (h n hn).1 (h n hn).2⟩

omit W in
theorem segmentRows_of_rely {t : Partition} (hs : Inv digest feed base s) (hr : WorkerRely s t)
    (h : Pending batch s) :
    ∀ n ∈ batch, t.segments.lookup n = s.segments.lookup n :=
  fun n hn => hr.segments n (hs.spooled.segments n (h n hn))

/-- The rows of the pending segments of a batch. -/
def batchRows (feed : Feed) (batch : List String) (p : Partition) : Multiset (String → Value) :=
  (batch.map (segmentRows feed p)).sum

omit W in
theorem batchRows_of_rely {t : Partition} (hs : Inv digest feed base s) (hr : WorkerRely s t)
    (h : Pending batch s) : batchRows feed batch t = batchRows feed batch s := by
  unfold batchRows
  refine congrArg List.sum (List.map_congr_left fun n hn => ?_)
  rw [segmentRows, segmentRows_of_rely hs hr h n hn, segmentRows]

/-- Before the marker and while it waits for its output: nothing is removed yet. -/
def Ready (feed : Feed) (cs : AList fun _ : String => CommitMarker) (batch rest : List String)
    (k : ℕ) (p : Partition) : Prop :=
  p.commits = cs ∧ Pending batch p ∧ Pending rest p ∧ (batchRows feed batch p).card = k

omit W in
theorem Ready.of_rely {t : Partition} {k : ℕ} (hs : Inv digest feed base s) (hr : WorkerRely s t)
    (h : Ready feed cs batch rest k s) : Ready feed cs batch rest k t :=
  ⟨hr.commits.trans h.1, h.2.1.of_rely hs hr, h.2.2.1.of_rely hs hr, by
    rw [batchRows_of_rely hs hr h.2.1]
    exact h.2.2.2⟩

theorem stable_ready (cs : AList fun _ : String => CommitMarker) (batch rest : List String)
    (k : ℕ) : C.Stable fun t => Inv digest feed base t ∧ Ready feed cs batch rest k t :=
  W.stable fun _ _ hI hr ht => ht.of_rely hI hr

/-- **Writing the marker.** -/
theorem ensures_openCommit (hdigest : digest.Injective) (hcs : ∀ d, d ∉ cs) (hne : batch ≠ [])
    (hnodup : batch.Nodup) {k : ℕ}
    (h : Inv digest feed base s ∧ Ready feed cs batch rest k s) :
    Ensures C (fun _ t => Inv digest feed base t ∧
        Ready feed (cs.insert (digest batch) (commitMarker digest batch k)) batch rest k t)
      (Raised (Inv digest feed base) F)
      (atomicWriteBytes (.write · (.commit (digest batch))) addTemporary dropTemporary fun p =>
        { p with commits := p.commits.insert (digest batch) (commitMarker digest batch k) }) s := by
  have hfiles : ∀ (t : Partition) (n : ℕ), Inv digest feed base t →
      Inv digest feed base { t with spoolTemporaries := n } :=
    fun t n ht => ht.files n t.partsDirectory
  have hstep : ∀ (t : Partition) (n : ℕ), WorkerStep t { t with spoolTemporaries := n } :=
    fun t n => WorkerStep.commits t.commits n
  refine W.atomicWrite (stable_ready W cs batch rest k) (stable_ready W _ batch rest k)
    (fun t ht => ht.1) (fun t ht => ht.1) (fun t ht => ?_) (fun t ht => ?_) (fun t ht _ => ?_) h
  · have hI := hfiles t (t.spoolTemporaries + 1) ht.1
    exact ⟨W.allows t _ ht.1 hI (hstep t _), hI, ht.2⟩
  · have hI := hfiles t (t.spoolTemporaries - 1) ht
    exact ⟨W.allows t _ ht hI (hstep t _), hI⟩
  · obtain ⟨hI, hcommits, hpending, hrest, hcard⟩ := ht
    have hbatch : Batch feed t batch k := by
      refine ⟨hne, hnodup, hpending, ?_⟩
      rw [← hcard, batchRows, ← Multiset.cardHom_apply, map_list_sum, List.map_map]
      rfl
    have hfree : ∀ d, d ∉ t.commits := by
      rw [hcommits]
      exact hcs
    have hI' : Inv digest feed base { t with
        commits := t.commits.insert (digest batch) (commitMarker digest batch k) } :=
      ⟨hI.core.openCommit hI.spooled hdigest hfree hbatch, hI.spooled.openCommit hbatch⟩
    have hI'' := hfiles _ (t.spoolTemporaries - 1) hI'
    exact ⟨W.allows t _ hI hI'' (WorkerStep.commits _ _), hI'',
      congrArg (AList.insert _ _) hcommits, hpending, hrest, hcard⟩

/-- The output of the one marker is in place, and the segments `left` of its batch are not removed
yet. -/
def Installed (cs : AList fun _ : String => CommitMarker) (m : CommitMarker)
    (left rest : List String) (p : Partition) : Prop :=
  Emptied cs m left p ∧ Pending left p ∧ Pending rest p

theorem stable_installed {d : String} {m : CommitMarker} (hm : cs.lookup d = some m)
    (left rest : List String) :
    C.Stable fun t => Inv digest feed base t ∧ Installed cs m left rest t := by
  refine fun t u hr ht => ?_
  obtain ⟨hI, hempty⟩ := stable_emptied W hm left t u hr ⟨ht.1, ht.2.1⟩
  have hr' := W.relies t u ht.1 hr
  exact ⟨hI, hempty, ht.2.2.1.of_rely ht.1 hr', ht.2.2.2.of_rely ht.1 hr'⟩

/-- **Writing the Parquet file** of the one marker. -/
theorem ensures_writeBatch {d : String} {m : CommitMarker} (hm : cs.lookup d = some m)
    (hsources : m.sources = batch) (hnodup : batch.Nodup)
    (h : Inv digest feed base s ∧ Ready feed cs batch rest m.expectedRows s ∧
      ¬ Valid s m.output m.expectedRows) :
    Ensures C (fun _ t => Inv digest feed base t ∧ Installed cs m batch rest t)
      (Raised (Inv digest feed base) F) (writeParquetAtomic feed (readSegments batch) m.output)
      s := by
  have hlookup : ∀ t : Partition, t.commits = cs → t.commits.lookup d = some m :=
    fun t ht => by rw [ht, hm]
  have hP : C.Stable fun t => Inv digest feed base t ∧
      Ready feed cs batch rest m.expectedRows t ∧ ¬ Valid t m.output m.expectedRows :=
    W.stable fun t u hI hr ht =>
      ⟨ht.1.of_rely hI hr, not_valid_of_rely hr (hlookup t ht.1.1) ht.2⟩
  have hrows : ∀ rows : List Row, C.Stable fun t => (Inv digest feed base t ∧
      Ready feed cs batch rest m.expectedRows t ∧ ¬ Valid t m.output m.expectedRows) ∧
        tableRows feed rows = batchRows feed batch t := fun rows t u hr ht =>
    ⟨hP t u hr ht.1, by
      rw [batchRows_of_rely ht.1.1 (W.relies t u ht.1.1 hr) ht.1.2.1.2.1]
      exact ht.2⟩
  have hI : ∀ t, (Inv digest feed base t ∧ Ready feed cs batch rest m.expectedRows t ∧
      ¬ Valid t m.output m.expectedRows) → Inv digest feed base t := fun t ht => ht.1
  refine (W.op hP hP hI (fun t ht _ => ?_) h).bind fun _ t ht => ?_
  · have hI' : Inv digest feed base { t with partsDirectory := true } :=
      ht.1.files t.spoolTemporaries true
    exact ⟨W.allows t _ ht.1 hI' ⟨rfl, rfl, rfl, fun _ h => h, fun _ => rfl, fun _ _ h => h,
      fun _ h h' => absurd h h'⟩, hI', ht.2⟩
  refine (W.onError (fun u hu => ⟨W.refl u, hu⟩) ?_).bind fun _ u hu =>
    W.skip (stable_installed W hm batch rest) (fun v hv => hv.1) hu
  refine (W.skip hP hI ht).bind fun _ t ht => ?_
  refine (ensures_readSegments W.toKeeps hP hI feed (fun u hu => hu.2.1.2.1) (fun u v hu hr =>
    segmentRows_of_rely hu.1 (W.relies u v hu.1 hr) hu.2.1.2.1) ht).bind fun rows t ht => ?_
  refine (W.skip (hrows rows) (fun u hu => hu.1.1) ht).bind fun _ t ht => ?_
  refine W.op (hrows rows) (stable_installed W hm batch rest) (fun u hu => hu.1.1)
    (fun u hu _ => ?_) ht
  obtain ⟨⟨hu, hready, hv⟩, hrow⟩ := hu
  have hmarker := hlookup u hready.1
  have hI' : Inv digest feed base
      { u with parts := u.parts.insert m.output (rowsToTable feed rows) } :=
    ⟨hu.core.installCommit hmarker (by rw [hsources]; exact hnodup) hv
        (by rw [hsources]; exact hrow), hu.spooled.installCommit hmarker⟩
  refine ⟨W.allows u _ hu hI' (hu.installStep hmarker hv _), hI', ⟨hready.1, ?_, ?_⟩,
    hready.2.1, hready.2.2.1⟩
  · refine ⟨_, AList.lookup_insert _, ?_⟩
    rw [← card_contents, ← tableRows, hrow]
    exact hready.2.2.2
  · rw [hsources]
    exact fun n hn hnot => absurd hn hnot

/-- The segments of the batch are removed. -/
theorem ensures_unlinkBatch {d : String} {m : CommitMarker} (hm : cs.lookup d = some m)
    (hnodup : m.sources.Nodup) (hrest : ∀ n ∈ rest, n ∉ m.sources)
    (h : Inv digest feed base s ∧ Installed cs m m.sources rest s) :
    Ensures C (fun _ t => Inv digest feed base t ∧ Installed cs m [] rest t)
      (Raised (Inv digest feed base) F) (unlinkSegments unlinkSegment m.sources) s := by
  have hstable := stable_installed W hm
  refine (ensures_unlinkSegments (Q := fun left t => (Inv digest feed base t ∧
      Installed cs m left rest t) ∧ left.Nodup ∧ ∀ n ∈ left, n ∈ m.sources)
    (fun t u hr ht => ⟨hstable [] rest t u hr ht.1, ht.2⟩) (fun n left t ht => ?_)
    ⟨h, hnodup, fun _ hn => hn⟩).mono (fun _ t ht => ht.1) fun _ _ h => h
  obtain ⟨ht, hleft, hsub⟩ := ht
  obtain ⟨hnot, hleft'⟩ := List.nodup_cons.mp hleft
  have hn : n ∈ m.sources := hsub n (List.mem_cons_self ..)
  refine (W.unlink (hstable (n :: left) rest) (hstable left rest) (fun u hu => hu.1)
    (fun u hu hmissing => absurd (hu.2.2.1 n (List.mem_cons_self ..))
      (of_decide_eq_false hmissing)) (fun u hu _ => ?_) ht).mono
    (fun _ u hu => ⟨hu, hleft', fun x hx => hsub x (List.mem_cons_of_mem _ hx)⟩) fun _ _ h => h
  obtain ⟨hg, hI, hempty⟩ := unlinkSegment_step W hm hn hu.1 hu.2.1
  refine ⟨hg, hI, hempty, fun x hx => AList.mem_erase.mpr ⟨?_, hu.2.2.1 x
    (List.mem_cons_of_mem _ hx)⟩, fun x hx => AList.mem_erase.mpr ⟨?_, hu.2.2.2 x hx⟩⟩
  · rintro rfl
    exact hnot hx
  · rintro rfl
    exact hrest x hx hn

/-- What is left to do once the Parquet file is in place. -/
theorem ensures_finishCommit (hdigest : digest.Injective) {d : String} {m : CommitMarker}
    (hm : cs.lookup d = some m) (hfree : ∀ d', d' ∈ cs → d' = d) (hnodup : m.sources.Nodup)
    (hdisjoint : ∀ n ∈ rest, n ∉ m.sources)
    (h : Inv digest feed base s ∧ Installed cs m m.sources rest s) :
    Ensures C (fun _ t => Inv digest feed base t ∧
        (∀ d, d ∉ t.commits) ∧ Gone m.sources t ∧ Pending rest t)
      (Raised (Inv digest feed base) F)
      (do
        if (← parquetRowCount m.output) ≠ m.expectedRows then
          throw ⟨.osError, "row-count validation failed for " ++ m.output.text⟩
        unlinkSegments unlinkSegment m.sources
        unlinkCommit d
        pure (m.output, m.expectedRows)) s := by
  have hinstalled := stable_installed W hm m.sources rest
  refine (ensures_parquetRowCount W.toKeeps hinstalled (fun u hu => hu.1) (fun u hu => ?_)
    (fun u v hu hr => (W.relies u v hu.1 hr).outputs _ m (by rw [hu.2.1.1, hm])) h).bind
    fun n t ht => ?_
  · obtain ⟨file, hfile, -⟩ := hu.2.1.2.1
    exact AList.lookup_isSome.mp (by rw [hfile]; rfl)
  obtain ⟨ht, hcount⟩ := ht
  have hn : n = m.expectedRows := by
    obtain ⟨file, hfile, hlength⟩ := hcount
    obtain ⟨file', hfile', hlength'⟩ := ht.2.1.2.1
    rw [hfile] at hfile'
    cases hfile'
    exact hlength.symm.trans hlength'
  simp only [hn, ne_eq, not_true_eq_false, if_false]
  refine (ensures_unlinkBatch W hm hnodup hdisjoint ht).bind fun _ t ht => ?_
  have hB : C.Stable fun t => Markers digest feed base (cs.erase d) t ∧
      (Gone m.sources t ∧ Pending rest t) := fun u v hr hu => by
    have hr' := W.relies u v hu.1.1 hr
    exact ⟨(keeps_markers W _).inv u v hr hu.1, hu.2.1.of_rely hr', hu.2.2.of_rely hu.1.1 hr'⟩
  refine ((ensures_unlinkCommit W hdigest hm (stable_installed W hm [] rest) hB
    (fun u hu => ⟨hu.1, hu.2.1.1⟩) (fun u hu _ n hn => hu.2.1.2.2 n hn List.not_mem_nil)
    (fun u hu => ⟨fun n hn => ⟨?_, hu.2.1.2.2 n hn List.not_mem_nil⟩, hu.2.2.2⟩) ht).mono
    (fun _ _ h => h) fun e u hu => ⟨hu.1.1, hu.2⟩).bind fun _ t ht => ?_
  · obtain ⟨batch', -, -, -, hmarker, hnames⟩ :=
      hu.1.spooled.markers d m (by rw [hu.2.1.1, hm])
    rw [hmarker] at hn
    exact hnames n hn
  refine Ensures.pure_of hB ht fun u hu => ⟨hu.1.1, fun d' hd' => ?_, hu.2⟩
  rw [hu.1.2, AList.mem_erase] at hd'
  exact hd'.1 (hfree d' hd'.2)

/-- **A batch is committed**: no marker is left, its segments are gone, and the others are still
pending. -/
theorem ensures_commitSegments (hdigest : digest.Injective) (hne : batch ≠ [])
    (hnodup : batch.Nodup) (hdisjoint : ∀ n ∈ rest, n ∉ batch)
    (h : Inv digest feed base s ∧ (∀ d, d ∉ s.commits) ∧ Pending batch s ∧ Pending rest s) :
    Ensures C (fun _ t => Inv digest feed base t ∧
        (∀ d, d ∉ t.commits) ∧ Gone batch t ∧ Pending rest t)
      (Raised (Inv digest feed base) F) (commitSegments digest feed batch) s := by
  obtain ⟨hI, hfree, hbatch, hrest⟩ := h
  have hpending : C.Stable fun t => Inv digest feed base t ∧
      (t.commits = s.commits ∧ Pending batch t ∧ Pending rest t) :=
    W.stable fun t u hI hr ht =>
      ⟨hr.commits.trans ht.1, ht.2.1.of_rely hI hr, ht.2.2.of_rely hI hr⟩
  refine (ensures_readSegments W.toKeeps hpending (fun t ht => ht.1) feed (fun t ht => ht.2.2.1)
    (fun t u ht hr => segmentRows_of_rely ht.1 (W.relies t u ht.1 hr) ht.2.2.1)
    ⟨hI, rfl, hbatch, hrest⟩).bind fun rows t ht => ?_
  obtain ⟨⟨hI, hcommits, hbatch, hrest⟩, hrows⟩ := ht
  have hready : Ready feed s.commits batch rest rows.length t :=
    ⟨hcommits, hbatch, hrest, by rw [batchRows, ← hrows, card_tableRows]⟩
  refine (ensures_openCommit W hdigest hfree hne hnodup ⟨hI, hready⟩).bind fun _ t ht => ?_
  -- from here on the partition has one marker
  have hm : (s.commits.insert (digest batch) (commitMarker digest batch rows.length)).lookup
      (digest batch) = some (commitMarker digest batch rows.length) := AList.lookup_insert _
  have hone : ∀ d', d' ∈ s.commits.insert (digest batch) (commitMarker digest batch rows.length) →
      d' = digest batch := fun d' hd' =>
    ((AList.mem_insert _).mp hd').resolve_right (hfree d')
  refine (ensures_validOutput W.toKeeps (stable_ready W _ batch rest rows.length)
    (fun u hu => hu.1) rows.length (fun u v hu hr => (W.relies u v hu.1 hr).outputs _ _
      (by rw [hu.2.1, hm])) ht).bind fun b t ht => ?_
  obtain ⟨⟨hI, hready⟩, hb⟩ := ht
  cases b with
  | true =>
    exact ensures_finishCommit W hdigest hm hone hnodup hdisjoint ⟨hI, ⟨hready.1, hb.mp rfl,
      fun n hn hnot => absurd hn hnot⟩, hready.2.1, hready.2.2.1⟩
  | false =>
    refine (ensures_writeBatch W hm rfl hnodup ⟨hI, hready, fun hv => by cases hb.mpr hv⟩).bind
      fun _ t ht => ?_
    exact ensures_finishCommit W hdigest hm hone hnodup hdisjoint ht

end Commit

end BkkCollector.Storage.SpoolCommit
