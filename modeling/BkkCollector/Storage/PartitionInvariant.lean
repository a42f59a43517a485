import BkkCollector.Storage.PartitionStore

/-! # The invariant of a partition

`Core` says that the rows of the store are those the partition started with and those that were
staged. `Spooled` says where the names come from: a marker names staged segments, and the Parquet
file of a batch whose marker is gone has no pending segment left. Both are kept by every effect of a
stage, of a commit and its recovery, and of a compaction. -/

namespace BkkCollector.Storage.PartitionInvariant

open BkkCollector.Logic.MergeStore BkkCollector.Python.Objects BkkCollector.Config
open BkkCollector.Storage.ParquetStore BkkCollector.Storage.PartitionStore

/-! ### Rows -/

/-- The rows of the pending segments. -/
def spoolRows (feed : Feed) (p : Partition) : Multiset (String → Value) :=
  (p.segments.entries.map fun e => tableRows feed e.2).sum

/-- The rows of the Parquet files. -/
def parquetRows (p : Partition) : Multiset (String → Value) :=
  (p.parts.entries.map fun e => contents e.2).sum

/-- The rows of all segments that were renamed into place. -/
def stagedRows (feed : Feed) (p : Partition) : Multiset (String → Value) :=
  (p.staged.map fun s => tableRows feed s.rows).sum

/-- Their names. -/
def stagedNames (p : Partition) : List String := p.staged.map Segment.name

theorem sum_segmentRows (feed : Feed) (p : Partition) :
    (p.segments.keys.map (segmentRows feed p)).sum = spoolRows feed p := by
  rw [spoolRows, AList.keys, List.keys, List.map_map]
  refine congrArg List.sum (List.map_congr_left fun e he => ?_)
  exact segmentRows_of_lookup (AList.mem_lookup_iff.mpr he)

theorem sum_partRows (p : Partition) : (p.parts.keys.map (partRows p)).sum = parquetRows p := by
  rw [parquetRows, AList.keys, List.keys, List.map_map]
  refine congrArg List.sum (List.map_congr_left fun e he => ?_)
  exact partRows_of_lookup (AList.mem_lookup_iff.mpr he)

/-- All rows in the store are in a segment or in a Parquet file. -/
theorem sum_files (feed : Feed) (p : Partition) :
    ∑ n ∈ (store feed p).files, (store feed p).rows n = spoolRows feed p + parquetRows p := by
  have hnodup : (p.segments.keys.map Sum.inl ++ p.parts.keys.map Sum.inr :
      List FileName).Nodup := by
    refine List.Nodup.append (p.segments.keys_nodup.map Sum.inl_injective)
      (p.parts.keys_nodup.map Sum.inr_injective) fun x hl hr => ?_
    obtain ⟨n, -, rfl⟩ := List.mem_map.mp hl
    obtain ⟨m, -, hm⟩ := List.mem_map.mp hr
    cases hm
  rw [← sum_segmentRows, ← sum_partRows, store, List.sum_toFinset _ hnodup, List.map_append,
    List.sum_append, List.map_map, List.map_map]
  rfl

/-! ### The invariants -/

/-- What holds of the files and markers of a partition that started with the rows `base`. -/
structure Core (feed : Feed) (base : Multiset (String → Value)) (p : Partition) : Prop where
  wf : (store feed p).WF
  visible : (store feed p).visible = base + stagedRows feed p
  commits : ∀ d m, p.commits.lookup d = some m → ∃ l d', m.output = .batch l d'
  transaction : ∀ t, p.transaction = some t → t.sources.Nodup ∧ ∃ d, t.output = .compacted d
  aligned : ∀ n file, p.parts.lookup n = some file → Aligned file

/-- A batch that is done with or still has its marker. -/
def Accounted (digest : List String → String) (p : Partition) (batch : List String) : Prop :=
  (∀ n ∈ batch, n ∈ stagedNames p) ∧ (digest batch ∈ p.commits ∨ ∀ n ∈ batch, n ∉ p.segments)

/-- A Parquet file that is there, or a source of the compaction. -/
def Known (p : Partition) (n : PartName) : Prop :=
  n ∈ p.parts ∨ ∃ t, p.transaction = some t ∧ n ∈ t.sources

/-- Where the segments, the markers and the Parquet files of a partition come from. -/
structure Spooled (digest : List String → String) (p : Partition) : Prop where
  markers : ∀ d m, p.commits.lookup d = some m → ∃ batch, batch ≠ [] ∧ batch.Nodup ∧
    digest batch = d ∧ m = commitMarker digest batch m.expectedRows ∧
      ∀ n ∈ batch, n ∈ stagedNames p
  segments : ∀ n ∈ p.segments, n ∈ stagedNames p
  known : ∀ l d, Known p (.batch l d) → ∃ batch, batch ≠ [] ∧ digest batch = d ∧
    l = batchLabel (batch.headD "") ∧ Accounted digest p batch
  staged : (stagedNames p).Nodup
  returned : p.returned ⊆ p.staged
  returnedNodup : (p.returned.map Segment.name).Nodup

variable {feed : Feed} {base : Multiset (String → Value)} {digest : List String → String}
  {p : Partition}

/-! ### Staging -/

section stage

variable {name : String} {rows : List Row}

/-- A segment of a new name. -/
abbrev withSegment (p : Partition) (name : String) (rows : List Row) : Partition :=
  { p with segments := p.segments.insert name rows, staged := p.staged ++ [⟨name, rows⟩] }

theorem stagedRows_withSegment :
    stagedRows feed (withSegment p name rows) = stagedRows feed p + tableRows feed rows := by
  simp [stagedRows]

theorem stagedNames_withSegment :
    stagedNames (withSegment p name rows) = stagedNames p ++ [name] := by
  simp [stagedNames]

theorem Core.stage (h : Core feed base p) (hs : Spooled digest p) (hn : name ∉ stagedNames p) :
    Core feed base (withSegment p name rows) := by
  have hnot : Sum.inl name ∉ (store feed p).files :=
    fun hmem => hn (hs.segments name (inl_mem_files.mp hmem))
  have houtput : ∀ k m, (store feed p).merges k = some m → m.output ≠ Sum.inl name := by
    intro k m hm
    obtain ⟨d, marker, -, -, rfl⟩ | ⟨t, -, -, rfl⟩ := merges_cases hm
    · exact Sum.inr_ne_inl
    · exact Sum.inr_ne_inl
  have hsource : ∀ k m, (store feed p).merges k = some m → Sum.inl name ∉ m.sources := by
    intro k m hm
    obtain ⟨d, marker, -, hd, rfl⟩ | ⟨t, -, -, rfl⟩ := merges_cases hm
    · obtain ⟨batch, -, -, -, hmarker, hnames⟩ := hs.markers d marker hd
      rw [inl_mem_commitMerge, hmarker]
      exact fun hmem => hn (hnames name hmem)
    · exact inl_mem_transactionMerge
  exact
    { wf := by
        rw [store_stage]
        exact h.wf.create hnot houtput
      visible := by
        rw [stagedRows_withSegment, store_stage, Store.visible_create hnot houtput hsource,
          h.visible, add_left_comm, add_comm (tableRows feed rows)]
      commits := h.commits
      transaction := h.transaction
      aligned := h.aligned }

theorem Spooled.stage (h : Spooled digest p) (hn : name ∉ stagedNames p) :
    Spooled digest (withSegment p name rows) := by
  have hmono : ∀ n ∈ stagedNames p, n ∈ stagedNames (withSegment p name rows) := by
    intro n hmem
    rw [stagedNames_withSegment]
    exact List.mem_append_left _ hmem
  exact
    { markers := fun d m hm => by
        obtain ⟨batch, hne, hnodup, hd, hmarker, hnames⟩ := h.markers d m hm
        exact ⟨batch, hne, hnodup, hd, hmarker, fun n hmem => hmono n (hnames n hmem)⟩
      segments := fun n hmem => by
        rcases (AList.mem_insert _).mp hmem with rfl | hmem
        · simp [stagedNames]
        · exact hmono n (h.segments n hmem)
      known := fun l d hk => by
        obtain ⟨batch, hne, hd, hl, hnames, hdone⟩ := h.known l d hk
        refine ⟨batch, hne, hd, hl, fun n hmem => hmono n (hnames n hmem), hdone.imp_right ?_⟩
        intro hgone n hmem hmem'
        rcases (AList.mem_insert _).mp hmem' with rfl | hmem'
        · exact hn (hnames n hmem)
        · exact hgone n hmem hmem'
      staged := by
        rw [stagedNames_withSegment]
        exact List.nodup_append.mpr ⟨h.staged, List.nodup_singleton _, fun x hx y hy hxy => by
          obtain rfl := List.mem_singleton.mp hy
          exact hn (hxy ▸ hx)⟩
      returned := fun s hmem => List.mem_append_left _ (h.returned hmem)
      returnedNodup := h.returnedNodup }

end stage

/-! ### Committing -/

section commit

variable {d : String} {m : CommitMarker}

/-- What a marker needs of the segments it names. -/
structure Batch (feed : Feed) (p : Partition) (batch : List String) (expectedRows : ℕ) : Prop where
  nonempty : batch ≠ []
  nodup : batch.Nodup
  present : ∀ n ∈ batch, n ∈ p.segments
  expected : (batch.map fun n => (segmentRows feed p n).card).sum = expectedRows

theorem sum_commitMerge {α : Type} [AddCommMonoid α] (f : FileName → α) (hm : m.sources.Nodup) :
    ∑ n ∈ (commitMerge m).sources, f n = (m.sources.map fun n => f (.inl n)).sum := by
  rw [commitMerge, List.sum_toFinset _ (hm.map Sum.inl_injective), List.map_map]
  rfl

theorem sum_transactionMerge {α : Type} [AddCommMonoid α] {t : Transaction} (f : FileName → α)
    (ht : t.sources.Nodup) :
    ∑ n ∈ (transactionMerge t).sources, f n = (t.sources.map fun n => f (.inr n)).sum := by
  rw [transactionMerge, List.sum_toFinset _ (ht.map Sum.inr_injective), List.map_map]
  rfl

/-- The file of a pending batch without a marker is not there. -/
theorem Spooled.output_not_known (h : Spooled digest p) (hdigest : digest.Injective)
    {batch : List String} (hne : batch ≠ []) (hpresent : ∀ n ∈ batch, n ∈ p.segments)
    (hfree : digest batch ∉ p.commits) (l : String) : ¬ Known p (.batch l (digest batch)) := by
  intro hk
  obtain ⟨batch', -, hd, -, -, hdone⟩ := h.known l _ hk
  obtain rfl := hdigest hd
  obtain ⟨n, hn⟩ := List.exists_mem_of_ne_nil _ hne
  rcases hdone with hmem | hgone
  · exact hfree hmem
  · exact hgone n hn (hpresent n hn)

theorem Core.openCommit (h : Core feed base p) (hs : Spooled digest p)
    (hdigest : digest.Injective) (hfree : ∀ d, d ∉ p.commits) {batch : List String}
    {expectedRows : ℕ} (hb : Batch feed p batch expectedRows) :
    Core feed base { p with
      commits := p.commits.insert (digest batch) (commitMarker digest batch expectedRows) } := by
  have hnone : ∀ d, p.commits.lookup d = none := fun d => AList.lookup_eq_none.mpr (hfree d)
  have hunknown := hs.output_not_known hdigest hb.nonempty hb.present (hfree _)
    (batchLabel (batch.headD ""))
  have hopens : Store.Opens (store feed p) (some (digest batch))
      (commitMerge (commitMarker digest batch expectedRows)) :=
    { free := by rw [merges_some, hnone]; rfl
      sources := fun n hn => by
        rcases n with n | n
        · exact inl_mem_files.mpr (hb.present n (inl_mem_commitMerge.mp hn))
        · exact absurd hn inr_mem_commitMerge
      expected := (sum_commitMerge _ hb.nodup).trans hb.expected
      output := fun hmem => absurd (Or.inl (inr_mem_files.mp hmem)) hunknown
      disjoint := fun k' m' hm' => by
        obtain ⟨d, marker, -, hd, -⟩ | ⟨t, -, -, rfl⟩ := merges_cases hm'
        · rw [hnone] at hd
          cases hd
        · refine Finset.disjoint_left.mpr fun n hn hn' => ?_
          rcases n with n | n
          · exact inl_mem_transactionMerge hn'
          · exact inr_mem_commitMerge hn
      outputs := fun k' m' hm' => by
        obtain ⟨d, marker, -, hd, -⟩ | ⟨t, -, ht, rfl⟩ := merges_cases hm'
        · rw [hnone] at hd
          cases hd
        · obtain ⟨-, d, hd⟩ := h.transaction t ht
          rw [output_commitMerge, output_transactionMerge, hd]
          exact fun heq => by cases heq
      apart := fun k' m' hm' => by
        obtain ⟨d, marker, -, hd, -⟩ | ⟨t, -, ht, rfl⟩ := merges_cases hm'
        · rw [hnone] at hd
          cases hd
        · rw [output_commitMerge, inr_mem_transactionMerge]
          exact fun hmem => hunknown (Or.inr ⟨t, ht, hmem⟩)
      apart' := fun k' m' hm' _ => by
        obtain ⟨d, marker, -, hd, -⟩ | ⟨t, -, ht, rfl⟩ := merges_cases hm'
        · rw [hnone] at hd
          cases hd
        · exact inr_mem_commitMerge }
  exact
    { wf := by
        rw [store_commit]
        exact h.wf.openMerge hopens
      visible := by
        rw [store_commit, Store.visible_openMerge hopens]
        exact h.visible
      commits := fun d m hm => by
        by_cases hd : d = digest batch
        · subst hd
          rw [AList.lookup_insert] at hm
          cases hm
          exact ⟨_, _, rfl⟩
        · rw [AList.lookup_insert_ne hd] at hm
          exact h.commits d m hm
      transaction := h.transaction
      aligned := h.aligned }

theorem Spooled.openCommit (h : Spooled digest p) {batch : List String} {expectedRows : ℕ}
    (hb : Batch feed p batch expectedRows) :
    Spooled digest { p with
      commits := p.commits.insert (digest batch) (commitMarker digest batch expectedRows) } where
  markers d m hm := by
    by_cases hd : d = digest batch
    · subst hd
      rw [AList.lookup_insert] at hm
      cases hm
      exact ⟨batch, hb.nonempty, hb.nodup, rfl, rfl,
        fun n hn => h.segments n (hb.present n hn)⟩
    · rw [AList.lookup_insert_ne hd] at hm
      exact h.markers d m hm
  segments := h.segments
  known l d hk := by
    obtain ⟨batch', hne, hd, hl, hnames, hdone⟩ := h.known l d hk
    exact ⟨batch', hne, hd, hl, hnames, hdone.imp_left fun hmem =>
      (AList.mem_insert _).mpr (Or.inr hmem)⟩
  staged := h.staged
  returned := h.returned
  returnedNodup := h.returnedNodup

/-- The output of a merge in place of its sources, for a commit or a compaction. -/
theorem Core.install (h : Core feed base p) {k : Option String} {m : Merge FileName}
    (hm : (store feed p).merges k = some m) {output : PartName}
    (ho : m.output = .inr output) (hv : ¬ Valid p output m.expected) {file : ParquetFile}
    (hrows : contents file = ∑ n ∈ m.sources, (store feed p).rows n) (hfile : Aligned file) :
    Core feed base { p with parts := p.parts.insert output file } := by
  have hi : ¬ (store feed p).Installed m := fun hi => hv ((installed_iff ho).mp hi)
  have hstore : store feed { p with parts := p.parts.insert output file } =
      (store feed p).install m := by
    rw [store_part, hrows, ← ho]
    rfl
  exact
    { wf := by
        rw [hstore]
        exact h.wf.install hm hi
      visible := by
        rw [hstore, Store.visible_install h.wf hm hi]
        exact h.visible
      commits := h.commits
      transaction := h.transaction
      aligned := fun n f hf => by
        by_cases hn : n = output
        · subst hn
          rw [AList.lookup_insert] at hf
          cases hf
          exact hfile
        · rw [AList.lookup_insert_ne hn] at hf
          exact h.aligned n f hf }

theorem Core.installCommit (h : Core feed base p) (hm : p.commits.lookup d = some m)
    (hnodup : m.sources.Nodup) (hv : ¬ Valid p m.output m.expectedRows) {rows : List Row}
    (hrows : tableRows feed rows = (m.sources.map (segmentRows feed p)).sum) :
    Core feed base { p with parts := p.parts.insert m.output (rowsToTable feed rows) } :=
  h.install (k := some d) (m := commitMerge m) (by rw [merges_some, hm]; rfl) rfl hv
    (by rw [sum_commitMerge _ hnodup]; exact hrows) (aligned_rowsToTable feed rows)

theorem Spooled.installCommit (h : Spooled digest p) (hm : p.commits.lookup d = some m)
    {file : ParquetFile} :
    Spooled digest { p with parts := p.parts.insert m.output file } where
  markers := h.markers
  segments := h.segments
  known l d' hk := by
    by_cases hout : PartName.batch l d' = m.output
    · obtain ⟨batch, hne, -, hd, hmarker, hnames⟩ := h.markers d m hm
      rw [hmarker] at hout
      cases hout
      refine ⟨batch, hne, rfl, rfl, hnames, Or.inl ?_⟩
      rw [hd]
      exact AList.lookup_isSome.mp (by rw [hm]; rfl)
    · refine h.known l d' (hk.imp_left fun hmem => ?_)
      exact ((AList.mem_insert _).mp hmem).resolve_left hout
  staged := h.staged
  returned := h.returned
  returnedNodup := h.returnedNodup

theorem Core.unlinkSegment (h : Core feed base p) (hm : p.commits.lookup d = some m)
    (hv : Valid p m.output m.expectedRows) {n : String} (hn : n ∈ m.sources) :
    Core feed base { p with segments := p.segments.erase n } := by
  have hhidden : (store feed p).Hidden (.inl n) :=
    ⟨some d, commitMerge m, by rw [merges_some, hm]; rfl, (installed_iff rfl).mpr hv,
      inl_mem_commitMerge.mpr hn, Sum.inl_ne_inr⟩
  have houtput : ∀ k m, (store feed p).merges k = some m → m.output ≠ Sum.inl n := by
    intro k m hm
    obtain ⟨d, marker, -, -, rfl⟩ | ⟨t, -, -, rfl⟩ := merges_cases hm
    · exact Sum.inr_ne_inl
    · exact Sum.inr_ne_inl
  exact
    { wf := by
        rw [store_unlinkSegment]
        exact h.wf.retire hhidden houtput
      visible := by
        rw [store_unlinkSegment, Store.visible_retire hhidden houtput]
        exact h.visible
      commits := h.commits
      transaction := h.transaction
      aligned := h.aligned }

theorem Spooled.unlinkSegment (h : Spooled digest p) (n : String) :
    Spooled digest { p with segments := p.segments.erase n } where
  markers := h.markers
  segments x hx := h.segments x (AList.mem_erase.mp hx).2
  known l d hk := by
    obtain ⟨batch, hne, hd, hl, hnames, hdone⟩ := h.known l d hk
    exact ⟨batch, hne, hd, hl, hnames, hdone.imp_right fun hgone x hx hx' =>
      hgone x hx (AList.mem_erase.mp hx').2⟩
  staged := h.staged
  returned := h.returned
  returnedNodup := h.returnedNodup

theorem Core.unlinkCommit (h : Core feed base p) (hm : p.commits.lookup d = some m)
    (hdone : Valid p m.output m.expectedRows → ∀ n ∈ m.sources, n ∉ p.segments) :
    Core feed base { p with commits := p.commits.erase d } := by
  have hcloses : (store feed p).Closes (commitMerge m) := by
    intro hi n hn _ hmem
    rcases n with n | n
    · exact absurd (inl_mem_files.mp hmem)
        (hdone ((installed_iff rfl).mp hi) n (inl_mem_commitMerge.mp hn))
    · exact absurd hn inr_mem_commitMerge
  exact
    { wf := by
        rw [store_unlinkCommit]
        exact h.wf.closeMerge _
      visible := by
        rw [store_unlinkCommit,
          Store.visible_closeMerge (m := commitMerge m) (by rw [merges_some, hm]; rfl) hcloses]
        exact h.visible
      commits := fun d' m' hm' => by
        by_cases hd : d' = d
        · subst hd
          rw [AList.lookup_erase] at hm'
          cases hm'
        · rw [AList.lookup_erase_ne hd] at hm'
          exact h.commits d' m' hm'
      transaction := h.transaction
      aligned := h.aligned }

theorem Spooled.unlinkCommit (h : Spooled digest p) (hcore : Core feed base p)
    (hdigest : digest.Injective) (hm : p.commits.lookup d = some m)
    (hdone : Valid p m.output m.expectedRows → ∀ n ∈ m.sources, n ∉ p.segments) :
    Spooled digest { p with commits := p.commits.erase d } where
  markers d' m' hm' := by
    by_cases hd : d' = d
    · subst hd
      rw [AList.lookup_erase] at hm'
      cases hm'
    · rw [AList.lookup_erase_ne hd] at hm'
      exact h.markers d' m' hm'
  segments := h.segments
  known l d' hk := by
    obtain ⟨batch, hne, hd', hl, hnames, hgone⟩ := h.known l d' hk
    refine ⟨batch, hne, hd', hl, hnames, ?_⟩
    by_cases hd : d' = d
    · -- the file of the marker that goes is in place, so its segments are gone
      right
      obtain ⟨batch', -, -, hdigest', hmarker, -⟩ := h.markers d m hm
      obtain rfl : batch = batch' := hdigest (hd'.trans (hd.trans hdigest'.symm))
      have hout : m.output = .batch l d' := by
        rw [hmarker, hl, ← hd']
        rfl
      have hsources : m.sources = batch := by
        rw [hmarker]
        rfl
      have hv : Valid p m.output m.expectedRows := by
        by_contra hv
        have hi : ¬ (store feed p).Installed (commitMerge m) :=
          fun hi => hv ((installed_iff rfl).mp hi)
        have hmerge : (store feed p).merges (some d) = some (commitMerge m) := by
          rw [merges_some, hm]
          rfl
        rcases hk with hmem | ⟨t, ht, hmem⟩
        · have := hcore.wf.output (some d) _ hmerge hi
            (inr_mem_files.mpr (by rw [hout]; exact hmem))
          exact inr_mem_commitMerge this
        · have hnone : (store feed p).merges none = some (transactionMerge t) := by
            rw [merges_none, ht]
            rfl
          refine hcore.wf.apart (some d) none _ _ hmerge hnone (by simp) hi ?_
          rw [output_commitMerge, inr_mem_transactionMerge, hout]
          exact hmem
      rw [← hsources]
      exact hdone hv
    · refine hgone.imp_left fun hmem => AList.mem_erase.mpr ⟨?_, hmem⟩
      rwa [hd']
  staged := h.staged
  returned := h.returned
  returnedNodup := h.returnedNodup

end commit

/-! ### Compacting -/

section compact

variable {t : Transaction}

/-- The sources of a compaction that is in place have no rows left. -/
def Spent (p : Partition) (t : Transaction) : Prop :=
  Valid p t.output t.expectedRows → ∀ n ∈ t.sources, n ≠ t.output → n ∈ p.parts → partRows p n = 0

/-- What a compaction marker needs of the files it names. -/
structure Sources (p : Partition) (t : Transaction) : Prop where
  nodup : t.sources.Nodup
  output : ∃ d, t.output = .compacted d
  present : ∀ n ∈ t.sources, n ∈ p.parts
  expected : (t.sources.map fun n => (partRows p n).card).sum = t.expectedRows
  own : t.output ∈ p.parts → t.output ∈ t.sources

theorem Core.unlinkTransaction (h : Core feed base p) (ht : p.transaction = some t)
    (hspent : Spent p t) : Core feed base { p with transaction := none } := by
  have hcloses : (store feed p).Closes (transactionMerge t) := by
    intro hi n hn hne hmem
    rcases n with n | n
    · exact absurd hn inl_mem_transactionMerge
    · exact hspent ((installed_iff rfl).mp hi) n (inr_mem_transactionMerge.mp hn)
        (fun h => hne (congrArg Sum.inr h)) (inr_mem_files.mp hmem)
  exact
    { wf := by
        rw [store_unlinkTransaction]
        exact h.wf.closeMerge _
      visible := by
        rw [store_unlinkTransaction,
          Store.visible_closeMerge (m := transactionMerge t) (by rw [merges_none, ht]; rfl) hcloses]
        exact h.visible
      commits := h.commits
      transaction := fun t' ht' => by cases ht'
      aligned := h.aligned }

theorem Spooled.unlinkTransaction (h : Spooled digest p) :
    Spooled digest { p with transaction := none } where
  markers := h.markers
  segments := h.segments
  known l d hk := h.known l d (hk.imp_right fun ⟨t, ht, _⟩ => by cases ht)
  staged := h.staged
  returned := h.returned
  returnedNodup := h.returnedNodup

theorem Core.opens (h : Core feed base p) (hnone : p.transaction = none) (hs : Sources p t) :
    Store.Opens (store feed p) none (transactionMerge t) where
  free := by
    rw [merges_none, hnone]
    rfl
  sources n hn := by
    rcases n with n | n
    · exact absurd hn inl_mem_transactionMerge
    · exact inr_mem_files.mpr (hs.present n (inr_mem_transactionMerge.mp hn))
  expected := (sum_transactionMerge _ hs.nodup).trans hs.expected
  output hmem := inr_mem_transactionMerge.mpr (hs.own (inr_mem_files.mp hmem))
  disjoint k' m' hm' := by
    obtain ⟨d, marker, -, hd, rfl⟩ | ⟨t', -, ht', -⟩ := merges_cases hm'
    · refine Finset.disjoint_left.mpr fun n hn hn' => ?_
      rcases n with n | n
      · exact inl_mem_transactionMerge hn
      · exact inr_mem_commitMerge hn'
    · rw [hnone] at ht'
      cases ht'
  outputs k' m' hm' := by
    obtain ⟨d, marker, -, hd, rfl⟩ | ⟨t', -, ht', -⟩ := merges_cases hm'
    · obtain ⟨l, d', ho⟩ := h.commits d marker hd
      obtain ⟨d'', hc⟩ := hs.output
      rw [output_commitMerge, output_transactionMerge, ho, hc]
      exact fun heq => by cases heq
    · rw [hnone] at ht'
      cases ht'
  apart k' m' hm' := by
    obtain ⟨d, marker, -, hd, rfl⟩ | ⟨t', -, ht', -⟩ := merges_cases hm'
    · exact inr_mem_commitMerge
    · rw [hnone] at ht'
      cases ht'
  apart' k' m' hm' hi hmem := by
    obtain ⟨d, marker, rfl, hd, rfl⟩ | ⟨t', -, ht', -⟩ := merges_cases hm'
    · -- the output of a commit that is not in place is no Parquet file at all
      have hpart := hs.present _ (inr_mem_transactionMerge.mp hmem)
      exact inr_mem_commitMerge (h.wf.output _ _ hm' hi (inr_mem_files.mpr hpart))
    · rw [hnone] at ht'
      cases ht'

theorem Core.openTransaction (h : Core feed base p) (hnone : p.transaction = none)
    (hs : Sources p t) : Core feed base { p with transaction := some t } where
  wf := by
    rw [store_transaction]
    exact h.wf.openMerge (h.opens hnone hs)
  visible := by
    rw [store_transaction, Store.visible_openMerge (h.opens hnone hs)]
    exact h.visible
  commits := h.commits
  transaction := fun t' ht' => by
    cases ht'
    exact ⟨hs.nodup, hs.output⟩
  aligned := h.aligned

theorem Spooled.openTransaction (h : Spooled digest p) (hs : Sources p t) :
    Spooled digest { p with transaction := some t } where
  markers := h.markers
  segments := h.segments
  known l d hk := by
    refine h.known l d (Or.inl ?_)
    rcases hk with hmem | ⟨t', ht', hmem⟩
    · exact hmem
    · cases ht'
      exact hs.present _ hmem
  staged := h.staged
  returned := h.returned
  returnedNodup := h.returnedNodup

theorem Core.installTransaction (h : Core feed base p) (ht : p.transaction = some t)
    (hv : ¬ Valid p t.output t.expectedRows) {file : ParquetFile} (hfile : Aligned file)
    (hrows : contents file = (t.sources.map (partRows p)).sum) :
    Core feed base { p with parts := p.parts.insert t.output file } :=
  h.install (k := none) (m := transactionMerge t) (by rw [merges_none, ht]; rfl) rfl hv
    (by rw [sum_transactionMerge _ (h.transaction t ht).1]; exact hrows) hfile

/-- A file replaced by one with the same rows. -/
theorem Core.replacePart (h : Core feed base p) {n : PartName} {file : ParquetFile}
    (hn : n ∈ p.parts) (hfile : Aligned file) (hrows : contents file = partRows p n) :
    Core feed base { p with parts := p.parts.insert n file } := by
  have hstore : store feed { p with parts := p.parts.insert n file } = store feed p := by
    rw [store_part, hrows]
    refine Store.ext (Finset.insert_eq_of_mem (inr_mem_files.mpr hn)) ?_ rfl
    exact Function.update_eq_self (Sum.inr n) (store feed p).rows
  exact
    { wf := by
        rw [hstore]
        exact h.wf
      visible := by
        rw [hstore]
        exact h.visible
      commits := h.commits
      transaction := h.transaction
      aligned := fun n' f hf => by
        by_cases hne : n' = n
        · subst hne
          rw [AList.lookup_insert] at hf
          cases hf
          exact hfile
        · rw [AList.lookup_insert_ne hne] at hf
          exact h.aligned n' f hf }

theorem Spooled.installTransaction (h : Spooled digest p) {d : String} {file : ParquetFile} :
    Spooled digest { p with parts := p.parts.insert (.compacted d) file } where
  markers := h.markers
  segments := h.segments
  known l d' hk := h.known l d' (hk.imp_left fun hmem =>
    ((AList.mem_insert _).mp hmem).resolve_left fun heq => by cases heq)
  staged := h.staged
  returned := h.returned
  returnedNodup := h.returnedNodup

theorem Core.unlinkPart (h : Core feed base p) (ht : p.transaction = some t)
    (hv : Valid p t.output t.expectedRows) {n : PartName} (hn : n ∈ t.sources)
    (hne : n ≠ t.output) (hfree : ∀ d m, p.commits.lookup d = some m → m.output ≠ n) :
    Core feed base { p with parts := p.parts.erase n } := by
  have hhidden : (store feed p).Hidden (.inr n) :=
    ⟨none, transactionMerge t, by rw [merges_none, ht]; rfl, (installed_iff rfl).mpr hv,
      inr_mem_transactionMerge.mpr hn, fun heq => hne (Sum.inr.inj heq)⟩
  have houtput : ∀ k m, (store feed p).merges k = some m → m.output ≠ Sum.inr n := by
    intro k m hm
    obtain ⟨d, marker, -, hd, rfl⟩ | ⟨t', -, ht', rfl⟩ := merges_cases hm
    · exact fun heq => hfree d marker hd (Sum.inr.inj heq)
    · obtain rfl : t = t' := Option.some.inj (ht.symm.trans ht')
      exact fun heq => hne (Sum.inr.inj heq).symm
  exact
    { wf := by
        rw [store_unlinkPart]
        exact h.wf.retire hhidden houtput
      visible := by
        rw [store_unlinkPart, Store.visible_retire hhidden houtput]
        exact h.visible
      commits := h.commits
      transaction := h.transaction
      aligned := fun n' f hf => by
        by_cases hn' : n' = n
        · subst hn'
          rw [AList.lookup_erase] at hf
          cases hf
        · rw [AList.lookup_erase_ne hn'] at hf
          exact h.aligned n' f hf }

theorem Spooled.unlinkPart (h : Spooled digest p) (n : PartName) :
    Spooled digest { p with parts := p.parts.erase n } where
  markers := h.markers
  segments := h.segments
  known l d hk := h.known l d (hk.imp_left fun hmem => (AList.mem_erase.mp hmem).2)
  staged := h.staged
  returned := h.returned
  returnedNodup := h.returnedNodup

end compact

/-! ### What the invariant says of the rows -/

/-- **No row is lost**: each is in a pending segment or in a Parquet file. -/
theorem Core.le_rows (h : Core feed base p) :
    base + stagedRows feed p ≤ spoolRows feed p + parquetRows p := by
  rw [← h.visible, ← sum_files]
  exact Store.visible_le

/-- **No row is in two Parquet files**, without a compaction. -/
theorem Core.parquetRows_le (h : Core feed base p) (hnone : p.transaction = none) :
    parquetRows p ≤ base + stagedRows feed p := by
  have hshare : ∀ n ∈ p.parts.keys, (store feed p).share (.inr n) = partRows p n := by
    intro n hn
    refine Store.share_of_mem (inr_mem_files.mpr (AList.mem_keys.mpr hn)) ?_
    rintro ⟨k, m, hm, -, hs, -⟩
    obtain ⟨d, marker, -, -, rfl⟩ | ⟨t, -, ht, -⟩ := merges_cases hm
    · exact inr_mem_commitMerge hs
    · rw [hnone] at ht
      cases ht
  have hsub : (p.parts.keys.map Sum.inr).toFinset ⊆ (store feed p).files := by
    intro n hn
    obtain ⟨part, hpart, rfl⟩ := List.mem_map.mp (List.mem_toFinset.mp hn)
    exact inr_mem_files.mpr (AList.mem_keys.mpr hpart)
  have hsum : ∑ n ∈ (p.parts.keys.map Sum.inr).toFinset, (store feed p).share n =
      parquetRows p := by
    rw [List.sum_toFinset _ (p.parts.keys_nodup.map Sum.inr_injective), List.map_map,
      ← sum_partRows]
    exact congrArg List.sum (List.map_congr_left hshare)
  rw [← h.visible, ← hsum]
  exact Finset.sum_le_sum_of_subset hsub

theorem spoolRows_of_empty (h : p.segments = ∅) : spoolRows feed p = 0 := by
  simp [spoolRows, h]

/-- **No row is there twice** once no commit and no compaction is left half done. -/
theorem Core.sum_rows (h : Core feed base p)
    (hdone : ∀ d m, p.commits.lookup d = some m → Valid p m.output m.expectedRows →
      ∀ n ∈ m.sources, n ∉ p.segments)
    (hspent : ∀ t, p.transaction = some t → Spent p t) :
    spoolRows feed p + parquetRows p = base + stagedRows feed p := by
  have hhidden : ∀ n ∈ (store feed p).files,
      (store feed p).Hidden n → (store feed p).rows n = 0 := by
    rintro n hmem ⟨k, m, hm, hi, hn, hne⟩
    obtain ⟨d, marker, -, hd, rfl⟩ | ⟨t, -, ht, rfl⟩ := merges_cases hm
    · rcases n with n | n
      · exact absurd (inl_mem_files.mp hmem)
          (hdone d marker hd ((installed_iff rfl).mp hi) n (inl_mem_commitMerge.mp hn))
      · exact absurd hn inr_mem_commitMerge
    · rcases n with n | n
      · exact absurd hn inl_mem_transactionMerge
      · exact hspent t ht ((installed_iff rfl).mp hi) n (inr_mem_transactionMerge.mp hn)
          (fun heq => hne (congrArg Sum.inr heq)) (inr_mem_files.mp hmem)
  rw [← h.visible, Store.visible_eq_sum hhidden, sum_files]

theorem Core.rows_eq (h : Core feed base p) (hsegments : p.segments = ∅)
    (hspent : ∀ t, p.transaction = some t → Spent p t) :
    parquetRows p = base + stagedRows feed p := by
  have hsum := h.sum_rows (fun d m _ _ n _ => by
    rw [hsegments]
    exact AList.notMem_empty n) hspent
  rwa [spoolRows_of_empty hsegments, zero_add] at hsum

end BkkCollector.Storage.PartitionInvariant
