import BkkCollector.Logic.MergeStore
import BkkCollector.Storage.ParquetStore

/-! # A partition as a store

The files of a partition are the files of a `Store`: segments and Parquet files alike, each with the
rows it has in Parquet. Commit markers and the marker of a compaction are its merges. Every effect
of a program on the partition is a step of the store. -/

namespace BkkCollector.Storage.PartitionStore

open BkkCollector.Logic.MergeStore BkkCollector.Python.Objects BkkCollector.Config
open BkkCollector.Storage.ParquetStore

/-! ### Contents -/

/-- The rows of a Parquet file; a column that it does not have is null. -/
def contents (file : ParquetFile) : Multiset (String → Value) := ↑(file.rows.map Row.get)

/-- The rows of a segment, as they are in Parquet. -/
def tableRows (feed : Feed) (rows : List Row) : Multiset (String → Value) :=
  contents (rowsToTable feed rows)

/-- The rows of a file have no columns beside its own. -/
def Aligned (file : ParquetFile) : Prop :=
  ∀ row ∈ file.rows, ∀ c, c ∉ file.schema → Row.get row c = .null

@[simp] theorem card_contents (file : ParquetFile) : (contents file).card = file.rows.length := by
  simp [contents]

@[simp] theorem card_tableRows (feed : Feed) (rows : List Row) :
    (tableRows feed rows).card = rows.length := by
  simp [tableRows, rowsToTable]

theorem tableRows_append (feed : Feed) (l l' : List Row) :
    tableRows feed (l ++ l') = tableRows feed l + tableRows feed l' := by
  simp [tableRows, contents, rowsToTable]

theorem get_project (schema : List String) (row : Row) (c : String) :
    Row.get (project schema row) c = if c ∈ schema then row.get c else .null := by
  induction schema with
  | nil => rfl
  | cons d schema ih =>
    rw [Row.get] at ih ⊢
    rw [project] at ih ⊢
    rw [List.map_cons, List.lookup_cons]
    by_cases hd : c = d
    · simp [hd]
    · have hne : (c == d) = false := by simpa using hd
      rw [hne, ih]
      simp [hd]

theorem aligned_rowsToTable (feed : Feed) (rows : List Row) : Aligned (rowsToTable feed rows) := by
  intro row hrow c hc
  obtain ⟨r, -, rfl⟩ := List.mem_map.mp hrow
  exact (get_project _ r c).trans (if_neg hc)

/-- What is put into a larger schema stays the same. -/
theorem get_project_of_aligned {file : ParquetFile} (h : Aligned file) {schema : List String}
    (hs : file.schema ⊆ schema) {row : Row} (hrow : row ∈ file.rows) :
    Row.get (project schema row) = Row.get row := by
  funext c
  rw [get_project]
  split
  · rfl
  · next hc => exact (h row hrow c fun h' => hc (hs h')).symm

/-! ### The store -/

/-- The files of a partition: segments and Parquet files. -/
abbrev FileName := String ⊕ PartName

/-- The merge of a commit marker. -/
def commitMerge (m : CommitMarker) : Merge FileName where
  sources := (m.sources.map Sum.inl).toFinset
  output := .inr m.output
  expected := m.expectedRows

/-- The merge of a compaction marker. -/
def transactionMerge (t : Transaction) : Merge FileName where
  sources := (t.sources.map Sum.inr).toFinset
  output := .inr t.output
  expected := t.expectedRows

/-- The rows of a segment, if it is there. -/
def segmentRows (feed : Feed) (p : Partition) (name : String) : Multiset (String → Value) :=
  ((p.segments.lookup name).map (tableRows feed)).getD 0

/-- The rows of a Parquet file, if it is there. -/
def partRows (p : Partition) (name : PartName) : Multiset (String → Value) :=
  ((p.parts.lookup name).map contents).getD 0

/-- **The store of a partition.** -/
def store (feed : Feed) (p : Partition) : Store FileName (Option String) (String → Value) where
  files := (p.segments.keys.map Sum.inl ++ p.parts.keys.map Sum.inr).toFinset
  rows := Sum.elim (segmentRows feed p) (partRows p)
  merges
    | some digest => (p.commits.lookup digest).map commitMerge
    | none => p.transaction.map transactionMerge

variable {feed : Feed} {p : Partition}

@[simp] theorem inl_mem_files {name : String} :
    Sum.inl name ∈ (store feed p).files ↔ name ∈ p.segments := by
  simp [store, AList.mem_keys]

@[simp] theorem inr_mem_files {name : PartName} :
    Sum.inr name ∈ (store feed p).files ↔ name ∈ p.parts := by
  simp [store, AList.mem_keys]

@[simp] theorem rows_inl (name : String) :
    (store feed p).rows (.inl name) = segmentRows feed p name := rfl

@[simp] theorem rows_inr (name : PartName) : (store feed p).rows (.inr name) = partRows p name := rfl

@[simp] theorem inl_mem_commitMerge {m : CommitMarker} {name : String} :
    Sum.inl name ∈ (commitMerge m).sources ↔ name ∈ m.sources := by
  simp [commitMerge]

@[simp] theorem inr_mem_commitMerge {m : CommitMarker} {name : PartName} :
    Sum.inr name ∉ (commitMerge m).sources := by
  simp [commitMerge]

@[simp] theorem inl_mem_transactionMerge {t : Transaction} {name : String} :
    Sum.inl name ∉ (transactionMerge t).sources := by
  simp [transactionMerge]

@[simp] theorem inr_mem_transactionMerge {t : Transaction} {name : PartName} :
    Sum.inr name ∈ (transactionMerge t).sources ↔ name ∈ t.sources := by
  simp [transactionMerge]

@[simp] theorem output_commitMerge (m : CommitMarker) : (commitMerge m).output = .inr m.output :=
  rfl

@[simp] theorem output_transactionMerge (t : Transaction) :
    (transactionMerge t).output = .inr t.output := rfl

@[simp] theorem merges_some (digest : String) :
    (store feed p).merges (some digest) = (p.commits.lookup digest).map commitMerge := rfl

@[simp] theorem merges_none :
    (store feed p).merges none = p.transaction.map transactionMerge := rfl

/-- The merges of a partition are its commit markers and the marker of its compaction. -/
theorem merges_cases {k : Option String} {m : Merge FileName}
    (h : (store feed p).merges k = some m) :
    (∃ digest marker, k = some digest ∧ p.commits.lookup digest = some marker ∧
      m = commitMerge marker) ∨
    ∃ t, k = none ∧ p.transaction = some t ∧ m = transactionMerge t := by
  cases k with
  | some digest =>
    obtain ⟨marker, hm, rfl⟩ := Option.map_eq_some_iff.mp h
    exact Or.inl ⟨digest, marker, rfl, hm, rfl⟩
  | none =>
    obtain ⟨t, ht, rfl⟩ := Option.map_eq_some_iff.mp h
    exact Or.inr ⟨t, rfl, ht, rfl⟩

theorem partRows_of_lookup {name : PartName} {file : ParquetFile}
    (h : p.parts.lookup name = some file) : partRows p name = contents file := by
  simp [partRows, h]

theorem segmentRows_of_lookup {name : String} {rows : List Row}
    (h : p.segments.lookup name = some rows) : segmentRows feed p name = tableRows feed rows := by
  simp [segmentRows, h]

/-- The output of a merge is in place: what `validOutput` looks at. -/
def Valid (p : Partition) (output : PartName) (expectedRows : ℕ) : Prop :=
  ∃ file, p.parts.lookup output = some file ∧ file.rows.length = expectedRows

theorem installed_iff {m : Merge FileName} {output : PartName} (h : m.output = .inr output) :
    (store feed p).Installed m ↔ Valid p output m.expected := by
  unfold Store.Installed Valid
  rw [h, inr_mem_files, rows_inr]
  constructor
  · rintro ⟨hmem, hcard⟩
    obtain ⟨file, hfile⟩ := Option.isSome_iff_exists.mp (AList.lookup_isSome.mpr hmem)
    rw [partRows_of_lookup hfile, card_contents] at hcard
    exact ⟨file, hfile, hcard⟩
  · rintro ⟨file, hfile, hcard⟩
    rw [partRows_of_lookup hfile, card_contents]
    exact ⟨AList.lookup_isSome.mp (by rw [hfile]; rfl), hcard⟩

/-! ### Effects as steps -/

theorem store_stage (name : String) (rows : List Row) (staged : List Segment) :
    store feed { p with segments := p.segments.insert name rows, staged := staged } =
      (store feed p).create (.inl name) (tableRows feed rows) := by
  refine Store.ext ?_ ?_ rfl
  · ext (n | n)
    · simp [Store.create]
    · simp [Store.create]
  · funext n
    rcases n with n | n
    · by_cases hn : n = name
      · subst hn
        simp [Store.create, segmentRows]
      · simp only [Store.create, rows_inl, segmentRows, AList.lookup_insert_ne hn]
        exact (Function.update_of_ne (fun h => hn (Sum.inl.inj h)) _ (store feed p).rows).symm
    · rfl

theorem store_part (name : PartName) (file : ParquetFile) :
    store feed { p with parts := p.parts.insert name file } =
      (store feed p).create (.inr name) (contents file) := by
  refine Store.ext ?_ ?_ rfl
  · ext (n | n)
    · simp [Store.create]
    · simp [Store.create]
  · funext n
    rcases n with n | n
    · rfl
    · by_cases hn : n = name
      · subst hn
        simp [Store.create, partRows]
      · simp only [Store.create, rows_inr, partRows, AList.lookup_insert_ne hn]
        exact (Function.update_of_ne (fun h => hn (Sum.inr.inj h)) _ (store feed p).rows).symm

theorem store_unlinkSegment (name : String) :
    store feed { p with segments := p.segments.erase name } =
      (store feed p).retire (.inl name) := by
  refine Store.ext ?_ ?_ rfl
  · ext (n | n)
    · simp [Store.retire]
    · simp [Store.retire]
  · funext n
    rcases n with n | n
    · by_cases hn : n = name
      · subst hn
        simp [Store.retire, segmentRows]
      · simp only [Store.retire, rows_inl, segmentRows, AList.lookup_erase_ne hn]
        exact (Function.update_of_ne (fun h => hn (Sum.inl.inj h)) _ (store feed p).rows).symm
    · rfl

theorem store_unlinkPart (name : PartName) :
    store feed { p with parts := p.parts.erase name } = (store feed p).retire (.inr name) := by
  refine Store.ext ?_ ?_ rfl
  · ext (n | n)
    · simp [Store.retire]
    · simp [Store.retire]
  · funext n
    rcases n with n | n
    · rfl
    · by_cases hn : n = name
      · subst hn
        simp [Store.retire, partRows]
      · simp only [Store.retire, rows_inr, partRows, AList.lookup_erase_ne hn]
        exact (Function.update_of_ne (fun h => hn (Sum.inr.inj h)) _ (store feed p).rows).symm

theorem store_commit (digest : String) (marker : CommitMarker) :
    store feed { p with commits := p.commits.insert digest marker } =
      (store feed p).openMerge (some digest) (commitMerge marker) := by
  refine Store.ext rfl rfl (funext fun k => ?_)
  rcases k with - | d
  · rfl
  · by_cases hd : d = digest
    · subst hd
      simp [Store.openMerge]
    · simp [Store.openMerge, Function.update_of_ne, hd]

theorem store_unlinkCommit (digest : String) :
    store feed { p with commits := p.commits.erase digest } =
      (store feed p).closeMerge (some digest) := by
  refine Store.ext rfl rfl (funext fun k => ?_)
  rcases k with - | d
  · rfl
  · by_cases hd : d = digest
    · subst hd
      simp [Store.closeMerge]
    · simp [Store.closeMerge, Function.update_of_ne, hd]

theorem store_transaction (t : Transaction) :
    store feed { p with transaction := some t } =
      (store feed p).openMerge none (transactionMerge t) := by
  refine Store.ext rfl rfl (funext fun k => ?_)
  rcases k with - | d
  · rfl
  · rfl

theorem store_unlinkTransaction :
    store feed { p with transaction := none } = (store feed p).closeMerge none := by
  refine Store.ext rfl rfl (funext fun k => ?_)
  rcases k with - | d
  · rfl
  · rfl

end BkkCollector.Storage.PartitionStore
