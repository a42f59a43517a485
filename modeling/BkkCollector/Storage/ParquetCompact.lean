import BkkCollector.Storage.ParquetStore

/-! # Compaction

`compact_partition` replaces the Parquet files of a partition by one. Like a commit it writes a
marker, the output, removes the sources, and removes the marker; a later call that finds the marker
finishes or repeats what it describes. It stays away from a partition whose spool directory is not
empty, which it looks at once. -/

namespace BkkCollector.Storage.ParquetCompact

open BkkCollector.Logic.Program BkkCollector.Python.Objects
open BkkCollector.Storage.AtomicIo BkkCollector.Storage.ParquetStore

/-- What the name of a compacted file is made of: the truncated digest of the names and sizes of the
sources. -/
structure Identity where
  size : ParquetFile → ℕ
  digest : List (String × ℕ) → String

/-- `pa.unify_schemas`, over columns of one type each; it wants at least one schema. -/
def unifySchemas : List (List String) → Except PyError (List String)
  | [] => .error ⟨.valueError, "Must provide at least one schema to unify."⟩
  | schema :: schemas =>
    .ok (schemas.foldl (fun unified s => unified ++ s.filter fun c => c ∉ unified) schema)

/-- `_align_table`. -/
def alignTable (schema : List String) (file : ParquetFile) : List Row :=
  file.rows.map (project schema)

/-- Opening a Parquet file. -/
def openParquet (part : PartName) : PartitionProg ParquetFile :=
  fsRead (.read (.part part)) fun p =>
    match p.parts.lookup part with
    | some file => .ok file
    | none => missing

/-- Opening Parquet files one after the other. -/
def openParquets : List PartName → PartitionProg (List ParquetFile)
  | [] => pure []
  | part :: parts => do
    let file ← openParquet part
    let rest ← openParquets parts
    pure (file :: rest)

/-- `all(source.exists() for source in sources)`. -/
def allPartsPresent : List PartName → PartitionProg Bool
  | [] => pure true
  | part :: parts => do
    let present ← fsRead (.stat (.part part)) fun p => .ok (decide (part ∈ p.parts))
    if present then allPartsPresent parts else pure false

/-- `source.unlink()`. -/
def unlinkPart (part : PartName) : PartitionProg Unit :=
  unlink (.unlink (.part part)) (fun p => decide (part ∈ p.parts)) fun p =>
    { p with parts := p.parts.erase part }

/-- Removing the sources, other than the output itself, one after the other. -/
def unlinkSources (remove : PartName → PartitionProg Unit) (output : PartName) :
    List PartName → PartitionProg Unit
  | [] => pure ()
  | part :: parts => do
    if part ≠ output then remove part
    unlinkSources remove output parts

/-- `marker.unlink()`. -/
def unlinkTransaction : PartitionProg Unit :=
  unlink (.unlink .transaction) (fun p => p.transaction.isSome) fun p =>
    { p with transaction := none }

/-- The merge of the sources of a transaction into its output. -/
def mergeSources (t : Transaction) : PartitionProg (Option PartName) := do
  let schemas := (← openParquets t.sources).map ParquetFile.schema
  fsOp (.encode (.part t.output)) id
  match unifySchemas schemas with
  | .error e => throw e
  | .ok schema => do
    Prog.onError
      (do
        fsOp (.write .openTemporary (.part t.output)) id
        let rows := (← openParquets t.sources).flatMap (alignTable schema)
        fsOp (.write .write (.part t.output)) id
        if rows.length ≠ t.expectedRows then
          throw ⟨.osError, "compacted row count does not match source row count"⟩
        fsOp (.write .replace (.part t.output)) fun p =>
          { p with parts := p.parts.insert t.output ⟨schema, rows⟩ }
        if (← parquetRowCount t.output) ≠ t.expectedRows then
          throw ⟨.osError, "atomic compaction output failed validation"⟩
        unlinkSources unlinkPart t.output t.sources
        unlinkTransaction)
      (fsOp (.write .unlinkTemporary (.part t.output)) id)
    fsOp (.write .unlinkTemporary (.part t.output)) id
    pure (some t.output)

/-- A call that found a marker. -/
def resume (t : Transaction) : PartitionProg (Option PartName) := do
  if ← validOutput t.output t.expectedRows then do
    unlinkSources (fun part => ignoreMissing (unlinkPart part)) t.output t.sources
    unlinkTransaction
    pure (some t.output)
  else if ← allPartsPresent t.sources then mergeSources t
  else
    throw ⟨.runtimeError,
      "incomplete compaction transaction has missing sources and no valid output"⟩

/-- The Parquet files of the partition, sorted by name. -/
def listParts : PartitionProg (List PartName) :=
  fsRead (.list .partsDirectory) fun p =>
    .ok (p.parts.keys.insertionSort fun a b => a.text ≤ b.text)

/-- The transaction of the listed files. -/
def newTransaction (identity : Identity) (sources : List PartName) (files : List ParquetFile) :
    Transaction where
  version := 1
  sources := sources
  output := .compacted (identity.digest
    ((sources.zip files).map fun s => (s.1.text, identity.size s.2)))
  expectedRows := (files.map fun file => file.rows.length).sum

/-- A call that found no marker. -/
def compactListed (identity : Identity) (minFiles : ℤ) : PartitionProg (Option PartName) := do
  let sources ← listParts
  if (sources.length : ℤ) < minFiles then pure none
  else do
    let t := newTransaction identity sources (← openParquets sources)
    atomicWriteJson (.write · .transaction) fun p => { p with transaction := some t }
    mergeSources t

/-- Is the spool directory empty. -/
def spoolEmpty (p : Partition) : Bool :=
  p.segments.keys.isEmpty && p.commits.keys.isEmpty && p.spoolTemporaries == 0

theorem keys_eq_nil {κ : Type} {β : κ → Type} {files : AList β} :
    files.keys = [] ↔ files = ∅ := by
  rw [AList.ext_iff, AList.keys, List.keys, List.map_eq_nil_iff]
  exact Iff.rfl

theorem spoolEmpty_iff {p : Partition} :
    spoolEmpty p = true ↔ p.segments = ∅ ∧ p.commits = ∅ ∧ p.spoolTemporaries = 0 := by
  unfold spoolEmpty
  rw [Bool.and_eq_true, Bool.and_eq_true, List.isEmpty_iff, List.isEmpty_iff, beq_iff_eq,
    keys_eq_nil, keys_eq_nil, and_assoc]

/-- The part of `compact_partition` that looks for a marker. -/
def compactFound (identity : Identity) (minFiles : ℤ) : PartitionProg (Option PartName) := do
  let transaction ← readJson (.read .transaction) none Partition.transaction
  match transaction with
  | some t => resume t
  | none => compactListed identity minFiles

/-- `compact_partition`: the output, or nothing. -/
def compactPartition (identity : Identity) (minFiles : ℤ) : PartitionProg (Option PartName) := do
  let exists? ← fsRead (.stat .partsDirectory) fun p => .ok p.partsDirectory
  if !exists? then pure none
  else do
    let empty ← fsRead (.list .spoolDirectory) fun p => .ok (spoolEmpty p)
    if !empty then pure none
    else compactFound identity minFiles

/-- A call without faults. -/
theorem run_compactPartition (identity : Identity) (minFiles : ℤ) (p : Partition) :
    run (compactPartition identity minFiles) p =
      if p.partsDirectory && spoolEmpty p then run (compactFound identity minFiles) p
      else (.ok none, p) := by
  unfold compactPartition
  cases hd : p.partsDirectory with
  | false => simp [hd]
  | true =>
    cases hempty : spoolEmpty p with
    | false => simp [hd, hempty]
    | true => simp [hd, hempty]

end BkkCollector.Storage.ParquetCompact
