import BkkCollector.Logic.Interning
import BkkCollector.Storage.ArrowTypes

/-! # Writing a Parquet file

`write_parquet_atomic` pulls the rows in batches, turns each batch into an Arrow table, and writes
the table to a temporary file that it renames when all are there. The strings of Alerts are
dictionary arrays, put together by hand.

* `rowsToTable_spec`: a table has the rows it was made of, with either encoding.
* `writeParquetAtomic_all_or_nothing`: the file has the rows that were pulled, or the path is as it
  was, and no temporary file is left.
-/

namespace BkkCollector.Storage.ParquetWrite

open BkkCollector.Logic.Program BkkCollector.Logic.Interning BkkCollector.Python.Objects
open BkkCollector.Config BkkCollector.Storage.AtomicIo BkkCollector.Storage.ArrowTypes
open BkkCollector.Storage.ParquetStore (ParquetFile parquetColumns project)

/-! ### Tables -/

/-- `pyarrow.array`: what becomes of one of the values, or what it raises. -/
structure Pyarrow where
  convert : ArrowType → Value → Except PyError Value

/-- What is assumed of `pyarrow.array`: values of matching type are kept, and a string array does
not tell values apart that are equal. -/
structure Pyarrow.Preserves (pa : Pyarrow) : Prop where
  matching : ∀ type v, type.accepts v = true → pa.convert type v = .ok v
  text : ∀ v w : Value, v.key = w.key →
    (pa.convert .string v).toOption = (pa.convert .string w).toOption

/-- An array: of values, or of indices into a dictionary. -/
inductive Column where
  | plain (values : List Value)
  | dictionary (indices : List (Option ℕ)) (entries : List Value)

/-- The values of an array. -/
def Column.values : Column → List Value
  | .plain values => values
  | .dictionary indices entries => (decode entries indices).map fun v => v.getD .null

/-- A table: its columns by name. -/
abbrev Table := List (String × Column)

/-- `table.num_rows`. -/
def numRows (table : Table) : ℕ := (table.head?.map fun c => c.2.values.length).getD 0

/-- The rows of a table. -/
def tableRows (table : Table) : List Row :=
  (List.range (numRows table)).map fun i => table.map fun c => (c.1, c.2.values[i]?.getD .null)

/-- The array of a column. Strings are interned if `dictionaryStrings`; their indices are 32 bit
integers. -/
def column (pa : Pyarrow) (dictionaryStrings : Bool) (type : ArrowType) (values : List Value) :
    Except PyError Column :=
  if dictionaryStrings ∧ type = .string then do
    let interned := intern Value.key (values.map fun v => if v = .null then none else some v)
    if interned.indices.any fun i => i.any fun i => decide (2 ^ 31 ≤ i) then
      throw ⟨.valueError, "Value too large to fit in C integer type"⟩
    let entries ← interned.dictionary.mapM (pa.convert .string)
    pure (.dictionary interned.indices entries)
  else do
    let values ← values.mapM (pa.convert type)
    pure (.plain values)

/-- The column of a name. -/
def columnOf (pa : Pyarrow) (rows : List Row) (dictionaryStrings : Bool) (name : String) :
    Except PyError (String × Column) := do
  let array ← column pa dictionaryStrings (arrowType name) (rows.map fun row => row.get name)
  pure (name, array)

/-- `rows_to_table`. -/
def rowsToTable (pa : Pyarrow) (feed : Feed) (rows : List Row) (dictionaryStrings : Bool) :
    Except PyError Table :=
  (parquetColumns feed).mapM (columnOf pa rows dictionaryStrings)

/-! ### Writing -/

/-- An iterator of rows: what it yields, and what it raises then, if it does. -/
structure RowIterator where
  rows : List Row
  raises : Option PyError := none

/-- `list(islice(iterator, n))`, and the rest of the iterator. -/
def RowIterator.nextBatch (it : RowIterator) (n : ℕ) : Except PyError (List Row × RowIterator) :=
  if it.rows.length < n then
    match it.raises with
    | some e => .error e
    | none => .ok (it.rows, { it with rows := [] })
  else .ok (it.rows.take n, { it with rows := it.rows.drop n })

/-- The path, and the temporary file beside it: the tables written to it. -/
structure Target where
  content : Option ParquetFile := none
  temporary : Option (List Table) := none

/-- The file operations of `write_parquet_atomic`. -/
inductive WriteStep where
  | mkdir
  | openWriter
  | metadata
  | writeTable
  | close
  | sync
  | replace
  | unlinkTemporary
  deriving DecidableEq

/-- A program on a target. -/
abbrev TargetProg (α : Type) := FsProg Target WriteStep α

/-- `writer.write_table(table)`. -/
def writeTable (table : Table) : TargetProg Unit :=
  fsOp .writeTable fun t => { t with temporary := t.temporary.map (· ++ [table]) }

/-- `while batch := list(islice(iterator, n))`. `fuel` is more than the number of rows. -/
def writeBatches (pa : Pyarrow) (feed : Feed) (dictionaryStrings : Bool) (n : ℕ) :
    (fuel : ℕ) → RowIterator → TargetProg Unit
  | 0, _ => pure ()
  | fuel + 1, it => do
    let (batch, rest) ← inMemory (it.nextBatch n)
    if batch = [] then pure ()
    else do
      let table ← inMemory (rowsToTable pa feed batch dictionaryStrings)
      writeTable table
      writeBatches pa feed dictionaryStrings n fuel rest

/-- `pq.ParquetWriter(temporary, schema, ..)`: it may leave a file behind when it fails. -/
def openWriter : TargetProg Unit :=
  fsStep .openWriter (fun t => .ok ({ t with temporary := some [] }, ())) fun n t =>
    if n = 0 then t else { t with temporary := some [] }

/-- `writer.add_key_value_metadata(..)`. -/
def addMetadata (dictionaryStrings : Bool) : TargetProg Unit :=
  if dictionaryStrings then fsOp .metadata id else pure ()

/-- `temporary.unlink()`, unless it is missing. -/
def unlinkTemporary : TargetProg Unit :=
  ignoreMissing (unlink .unlinkTemporary (fun t => t.temporary.isSome) fun t =>
    { t with temporary := none })

/-- What a reader finds in the file with these tables. -/
def fileOf (feed : Feed) (tables : List Table) : ParquetFile where
  schema := parquetColumns feed
  rows := tables.flatMap tableRows

/-- `os.replace(temporary, path)`. -/
def replace (feed : Feed) : TargetProg Unit :=
  fsStep .replace
    (fun t =>
      match t.temporary with
      | some tables => .ok ({ content := some (fileOf feed tables), temporary := none }, ())
      | none => .error ⟨.fileNotFoundError, ""⟩)
    fun _ t => t

/-- The `try` block of `write_parquet_atomic`. The writer is closed at each exit of its `with`
block. -/
def writeTables (pa : Pyarrow) (feed : Feed) (dictionaryStrings : Bool) (n : ℕ) (it : RowIterator) :
    TargetProg Unit := do
  openWriter
  Prog.onError
    (do
      addMetadata dictionaryStrings
      writeBatches pa feed dictionaryStrings n (it.rows.length + 1) it)
    (fsOp .close id)
  fsOp .close id
  fsOp .sync id
  replace feed

/-- `write_parquet_atomic`, with batches of `n` rows. The temporary file is removed at each exit. -/
def writeAtomic (pa : Pyarrow) (feed : Feed) (dictionaryStrings : Bool) (n : ℕ) (it : RowIterator) :
    TargetProg Unit := do
  fsOp .mkdir id
  (writeTables pa feed dictionaryStrings n it).onError unlinkTemporary
  unlinkTemporary

/-- `PARQUET_WRITE_BATCH_ROWS`. -/
def parquetWriteBatchRows : ℕ := 4096

/-- `write_parquet_atomic`. -/
def writeParquetAtomic (pa : Pyarrow) (feed : Feed) (it : RowIterator) : TargetProg Unit :=
  writeAtomic pa feed (feed = .alerts) parquetWriteBatchRows it

/-! ### Tables keep their rows -/

section Tables

variable {pa : Pyarrow} {feed : Feed} {type : ArrowType} {values : List Value} {rows : List Row}

/-- What a value becomes; where `pyarrow` raises, nothing. -/
def converted (pa : Pyarrow) (type : ArrowType) (v : Value) : Value :=
  (pa.convert type v).toOption.getD .null

/-- A value that goes into an array. -/
def Fits (pa : Pyarrow) (type : ArrowType) (v : Value) : Prop := ∃ w, pa.convert type v = .ok w

/-- The row in the file. -/
def stored (pa : Pyarrow) (feed : Feed) (row : Row) : Row :=
  (parquetColumns feed).map fun c => (c, converted pa (arrowType c) (row.get c))

/-- A row that goes into the columns. -/
def Storable (pa : Pyarrow) (feed : Feed) (row : Row) : Prop :=
  ∀ c ∈ parquetColumns feed, Fits pa (arrowType c) (row.get c)

theorem toOption_mapM {α β : Type} (f : α → Except PyError β) (l : List α) :
    (l.mapM f).toOption = l.mapM fun a => (f a).toOption := by
  induction l with
  | nil => rfl
  | cons a l ih =>
    rw [List.mapM_cons, List.mapM_cons, ← ih]
    cases f a with
    | error e => rfl
    | ok b => cases l.mapM f <;> rfl

theorem convert_eq_ok (h : Fits pa type v) : pa.convert type v = .ok (converted pa type v) := by
  obtain ⟨w, hw⟩ := h
  rw [converted, hw]
  rfl

theorem toOption_eq_some_iff {v w : Value} :
    (pa.convert type v).toOption = some w ↔ Fits pa type v ∧ w = converted pa type v := by
  constructor
  · intro h
    refine ⟨?_, by rw [converted, h]; rfl⟩
    cases hv : pa.convert type v with
    | error e =>
      rw [hv] at h
      cases h
    | ok w' => exact ⟨w', hv⟩
  · rintro ⟨hv, rfl⟩
    rw [convert_eq_ok hv]
    rfl

/-- All values go into an array, or one does not. -/
theorem mapM_convert (pa : Pyarrow) (type : ArrowType) (values : List Value) :
    match values.mapM (pa.convert type) with
    | .ok l => (∀ v ∈ values, Fits pa type v) ∧ l = values.map (converted pa type)
    | .error _ => ∃ v ∈ values, ¬ Fits pa type v := by
  have hoption := toOption_mapM (pa.convert type) values
  cases h : values.mapM (pa.convert type) with
  | ok l =>
    rw [h] at hoption
    have hall := mapM_eq_some.mp hoption.symm
    simp only [toOption_eq_some_iff] at hall
    refine ⟨fun v hv => ?_, ?_⟩
    · obtain ⟨w, hw⟩ := exists_mapM.mp ⟨l, hoption.symm⟩ v hv
      exact (toOption_eq_some_iff.mp hw).1
    · have hmap : List.Forall₂ Eq (values.map (converted pa type)) l :=
        List.forall₂_map_left_iff.mpr (hall.imp fun _ _ hw => hw.2.symm)
      rw [List.forall₂_eq_eq_eq] at hmap
      exact hmap.symm
  | error e =>
    by_contra hnone
    have hfits : ∀ v ∈ values, Fits pa type v := fun v hv => by
      by_contra hv'
      exact hnone ⟨v, hv, hv'⟩
    obtain ⟨l, hl⟩ := exists_mapM.mpr fun v hv =>
      ⟨converted pa type v, toOption_eq_some_iff.mpr ⟨hfits v hv, rfl⟩⟩
    rw [h, hl] at hoption
    cases hoption

/-- What the array of a column holds, and when there is one. -/
def Holds (pa : Pyarrow) (type : ArrowType) (values : List Value) :
    Except PyError Column → Prop
  | .ok array => (∀ v ∈ values, Fits pa type v) ∧ array.values = values.map (converted pa type)
  | .error _ => ∃ v ∈ values, ¬ Fits pa type v

theorem fits_null (hpa : pa.Preserves) (type : ArrowType) : pa.convert type .null = .ok .null :=
  hpa.matching type .null rfl

/-- A value of a dictionary array: null has no index. -/
theorem mapped_eq_some_iff (hpa : pa.Preserves) {v : Value} {w : Option Value} :
    mapValue (fun v => (pa.convert .string v).toOption) (if v = .null then none else some v) =
        some w ↔
      Fits pa .string v ∧ w = if v = .null then none else some (converted pa .string v) := by
  by_cases hv : v = .null
  · simp only [if_pos hv, mapValue, Option.some.injEq]
    have hfits : Fits pa .string v := ⟨.null, hv ▸ fits_null hpa .string⟩
    exact ⟨fun h => ⟨hfits, h.symm⟩, fun h => h.2.symm⟩
  · simp only [if_neg hv, mapValue, Option.map_eq_some_iff, toOption_eq_some_iff]
    constructor
    · rintro ⟨a, ⟨hfits, rfl⟩, rfl⟩
      exact ⟨hfits, rfl⟩
    · rintro ⟨hfits, rfl⟩
      exact ⟨_, ⟨hfits, rfl⟩, rfl⟩

/-- A dictionary array of at most `2 ^ 31` strings. -/
theorem holds_dictionary (hpa : pa.Preserves) (hsize : values.length ≤ 2 ^ 31) :
    Holds pa .string values (column pa true .string values) := by
  have hstores : Stores Value.key (values.map fun v => if v = .null then none else some v)
      (intern Value.key (values.map fun v => if v = .null then none else some v)) :=
    stores_intern _
  have hdecode := decode_intern (values.map fun v => if v = .null then none else some v)
    (f := fun v => (pa.convert .string v).toOption) hpa.text
  simp only [column, and_self, if_true]
  generalize intern Value.key (values.map fun v => if v = .null then none else some v) = interned
    at hstores hdecode
  have hindices : ¬ (interned.indices.any fun i => i.any fun i => decide (2 ^ 31 ≤ i)) = true := by
    intro hany
    obtain ⟨i, hi, hlarge⟩ := List.any_eq_true.mp hany
    cases i with
    | none => cases hlarge
    | some i =>
      have hlt := hstores.lt_length hi
      have hle := hstores.size
      rw [List.length_map] at hle
      exact absurd (of_decide_eq_true hlarge) (not_le.mpr (hlt.trans_le (hle.trans hsize)))
  rw [if_neg hindices]
  have hentries := toOption_mapM (pa.convert .string) interned.dictionary
  rw [← hentries, List.mapM_map, Function.comp_def] at hdecode
  cases hl : interned.dictionary.mapM (pa.convert .string) with
  | ok entries =>
    rw [hl] at hdecode
    have hall := mapM_eq_some.mp hdecode.symm
    simp only [mapped_eq_some_iff hpa] at hall
    refine ⟨fun v hv => ?_, ?_⟩
    · obtain ⟨w, hw⟩ := exists_mapM.mp ⟨_, hdecode.symm⟩ v hv
      exact ((mapped_eq_some_iff hpa).mp hw).1
    · have hmap : List.Forall₂ Eq (values.map (converted pa .string))
          ((decode entries interned.indices).map fun v => v.getD .null) := by
        rw [List.forall₂_map_left_iff, List.forall₂_map_right_iff]
        refine hall.imp fun v w hw => ?_
        rw [hw.2]
        split
        · next hnull => rw [hnull, converted, fits_null hpa]; rfl
        · rfl
      rw [List.forall₂_eq_eq_eq] at hmap
      exact hmap.symm
  | error e =>
    rw [hl] at hdecode
    by_contra hnone
    have hfits : ∀ v ∈ values, Fits pa .string v := fun v hv => by
      by_contra hv'
      exact hnone ⟨v, hv, hv'⟩
    obtain ⟨l, hl'⟩ := exists_mapM.mpr fun v hv =>
      ⟨_, (mapped_eq_some_iff hpa).mpr ⟨hfits v hv, rfl⟩⟩
    cases hdecode.trans hl'

theorem holds_column (hpa : pa.Preserves) (hsize : values.length ≤ 2 ^ 31)
    (dictionaryStrings : Bool) :
    Holds pa type values (column pa dictionaryStrings type values) := by
  by_cases h : dictionaryStrings ∧ type = .string
  · obtain ⟨rfl, rfl⟩ := h
    exact holds_dictionary hpa hsize
  · have hplain := mapM_convert pa type values
    rw [column, if_neg h]
    cases hl : values.mapM (pa.convert type) with
    | ok l =>
      rw [hl] at hplain
      exact hplain
    | error e =>
      rw [hl] at hplain
      exact hplain

/-- The columns of a table, one after the other. -/
theorem mapM_columns (hpa : pa.Preserves) (hsize : rows.length ≤ 2 ^ 31) (dictionaryStrings : Bool)
    (names : List String) :
    match names.mapM (columnOf pa rows dictionaryStrings) with
    | .ok table => (∀ c ∈ names, ∀ row ∈ rows, Fits pa (arrowType c) (row.get c)) ∧
        table.map Prod.fst = names ∧
        ∀ p ∈ table, p.2.values =
          rows.map fun row : Row => converted pa (arrowType p.1) (row.get p.1)
    | .error _ => ∃ c ∈ names, ∃ row ∈ rows, ¬ Fits pa (arrowType c) (row.get c) := by
  induction names with
  | nil => exact ⟨nofun, rfl, nofun⟩
  | cons name names ih =>
    have hcolumn : Holds pa (arrowType name) (rows.map fun row => row.get name)
        (column pa dictionaryStrings (arrowType name) (rows.map fun row => row.get name)) :=
      holds_column hpa (by rwa [List.length_map]) dictionaryStrings
    rw [List.mapM_cons, columnOf]
    cases harray : column pa dictionaryStrings (arrowType name)
        (rows.map fun row => row.get name) with
    | error e =>
      rw [harray] at hcolumn
      obtain ⟨v, hv, hfits⟩ := hcolumn
      obtain ⟨row, hrow, rfl⟩ := List.mem_map.mp hv
      exact ⟨name, List.mem_cons_self, row, hrow, hfits⟩
    | ok array =>
      rw [harray] at hcolumn
      obtain ⟨hfits, hvalues⟩ := hcolumn
      cases hrest : names.mapM (columnOf pa rows dictionaryStrings) with
      | error e =>
        rw [hrest] at ih
        obtain ⟨c, hc, hrow⟩ := ih
        exact ⟨c, List.mem_cons_of_mem _ hc, hrow⟩
      | ok table =>
        rw [hrest] at ih
        obtain ⟨hall, hnames, htable⟩ := ih
        refine ⟨?_, ?_, ?_⟩
        · rw [List.forall_mem_cons]
          exact ⟨fun row hrow => hfits _ (List.mem_map_of_mem hrow), hall⟩
        · exact congrArg (name :: ·) hnames
        · refine List.forall_mem_cons.mpr ⟨?_, htable⟩
          rw [hvalues, List.map_map]
          rfl

/-- **A table has the rows it was made of**, with either encoding of strings. -/
theorem rowsToTable_spec (hpa : pa.Preserves) (hsize : rows.length ≤ 2 ^ 31)
    (dictionaryStrings : Bool) (feed : Feed) :
    match rowsToTable pa feed rows dictionaryStrings with
    | .ok table =>
      (∀ row ∈ rows, Storable pa feed row) ∧ tableRows table = rows.map (stored pa feed)
    | .error _ => ∃ row ∈ rows, ¬ Storable pa feed row := by
  have hcolumns := mapM_columns hpa hsize dictionaryStrings (parquetColumns feed)
  unfold rowsToTable
  cases hresult : (parquetColumns feed).mapM (columnOf pa rows dictionaryStrings) with
  | error e =>
    rw [hresult] at hcolumns
    obtain ⟨c, hc, row, hrow, hfits⟩ := hcolumns
    exact ⟨row, hrow, fun h => hfits (h c hc)⟩
  | ok table =>
    rw [hresult] at hcolumns
    obtain ⟨hall, hnames, htable⟩ := hcolumns
    refine ⟨fun row hrow c hc => hall c hc row hrow, ?_⟩
    have hrows : numRows table = rows.length := by
      cases table with
      | nil => cases feed <;> cases hnames
      | cons p table =>
        have hp := htable p List.mem_cons_self
        simp [numRows, hp]
    refine List.ext_getElem (by simp [tableRows, hrows]) fun i hi hi' => ?_
    rw [List.length_map] at hi'
    simp only [tableRows, List.getElem_map, List.getElem_range, stored]
    rw [← hnames, List.map_map]
    refine List.map_congr_left fun p hp => ?_
    simp [htable p hp, hi']

/-- Rows of matching types are stored as they are. -/
theorem stored_eq_project (hpa : pa.Preserves) {row : Row} (h : convertible feed row = true) :
    Storable pa feed row ∧ stored pa feed row = project (parquetColumns feed) row := by
  have haccepts : ∀ c ∈ parquetColumns feed,
      pa.convert (arrowType c) (row.get c) = .ok (row.get c) := fun c hc =>
    hpa.matching _ _ (List.all_eq_true.mp h c hc)
  refine ⟨fun c hc => ⟨_, haccepts c hc⟩, List.map_congr_left fun c hc => ?_⟩
  rw [converted, haccepts c hc]
  rfl

end Tables

/-! ### The program -/

/-- The writer runs alone. The operations that `may` fail do so or not; the removal of the temporary
file does not. -/
def writing (may : WriteStep → Prop) : Contract Target WriteStep Choice :=
  Contract.alone (fun op c _ => c = .ok ∨ op ≠ .unlinkTemporary ∧ may op) fun _ _ => True

/-- The rows are all there, and in the file. -/
def Installed (pa : Pyarrow) (feed : Feed) (it : RowIterator) (t : Target) : Prop :=
  it.raises = none ∧ (∀ row ∈ it.rows, Storable pa feed row) ∧
    t = ⟨some ⟨parquetColumns feed, it.rows.map (stored pa feed)⟩, none⟩

/-- Why a file is not written. -/
def Cause (pa : Pyarrow) (feed : Feed) (it : RowIterator) (may : WriteStep → Prop) : Prop :=
  it.raises.isSome ∨ (∃ row ∈ it.rows, ¬ Storable pa feed row) ∨ ∃ op, may op

section Writing

variable {pa : Pyarrow} {feed : Feed} {may : WriteStep → Prop} {it : RowIterator} {s : Target}
  {exc : PyError → Target → Prop}

/-- An operation that changes the target. -/
theorem writing_fsOp {post : Unit → Target → Prop} {op : WriteStep} {eff : Target → Target}
    (hok : post () (eff s)) (hfault : may op → exc ioError s) :
    Ensures (writing may) post exc (fsOp op eff) s := by
  refine alone_fsStep (fun r _ hr => ?_) (fun e he => by cases he) fun n hn => ?_
  · cases hr
    exact ⟨trivial, hok⟩
  · rcases hn with hn | hn
    · cases hn
    · exact ⟨trivial, hfault hn.2⟩

/-- The temporary file is removed where there is one. -/
theorem writing_unlinkTemporary {post : Unit → Target → Prop}
    (h : post () { s with temporary := none }) :
    Ensures (writing may) post exc unlinkTemporary s := by
  have hunlink : Ensures (writing may) post (fun e t => e.type = .fileNotFoundError ∧ post () t)
      (unlink .unlinkTemporary (fun t => t.temporary.isSome) fun t =>
        { t with temporary := none }) s := by
    refine alone_fsStep (fun r _ hr => ?_) (fun e he => ?_) fun n hn => ?_
    · split at hr
      · cases hr
        exact ⟨trivial, h⟩
      · cases hr
    · split at he
      · cases he
      · next hnone =>
        cases he
        have hs : { s with temporary := none } = s := by
          cases s
          simpa using Eq.symm (Option.not_isSome_iff_eq_none.mp hnone)
        exact ⟨trivial, rfl, hs ▸ h⟩
    · rcases hn with hn | hn
      · cases hn
      · exact absurd rfl hn.1
  refine hunlink.tryCatch fun e t ht => ?_
  rw [if_pos ht.1]
  exact alone_pure ht.2

/-- A batch is the beginning of what is left; it is empty only at the end. -/
theorem nextBatch_spec {n : ℕ} (hn : 0 < n) {batch : List Row} {rest : RowIterator}
    (h : it.nextBatch n = .ok (batch, rest)) :
    it.rows = batch ++ rest.rows ∧ rest.raises = it.raises ∧ batch.length ≤ n ∧
      (batch = [] → it.rows = [] ∧ it.raises = none) := by
  unfold RowIterator.nextBatch at h
  split at h
  · next hlt =>
    cases hraises : it.raises with
    | some e =>
      rw [hraises] at h
      cases h
    | none =>
      rw [hraises] at h
      cases h
      exact ⟨(List.append_nil _).symm, rfl, hlt.le, fun hnil => ⟨hnil, rfl⟩⟩
  · next hle =>
    cases h
    refine ⟨(List.take_append_drop n it.rows).symm, rfl, List.length_take_le n _, fun hnil => ?_⟩
    have hlength := congrArg List.length hnil
    rw [List.length_take, List.length_nil] at hlength
    omega

theorem raises_of_nextBatch {n : ℕ} {e : PyError} (h : it.nextBatch n = .error e) :
    it.raises.isSome = true := by
  unfold RowIterator.nextBatch at h
  split at h
  · cases hraises : it.raises with
    | some e' => rfl
    | none =>
      rw [hraises] at h
      cases h
  · cases h

/-- The loop: with enough fuel it writes the rows that are left, or raises. -/
theorem writing_writeBatches (hpa : pa.Preserves) (dictionaryStrings : Bool) {n : ℕ} (hn : 0 < n)
    (hsize : n ≤ 2 ^ 31) {fuel : ℕ} (hfuel : it.rows.length < fuel) (content : Option ParquetFile)
    (tables : List Table) :
    Ensures (writing may)
      (fun _ t => it.raises = none ∧ (∀ row ∈ it.rows, Storable pa feed row) ∧
        t.content = content ∧ ∃ tables', t.temporary = some tables' ∧
          tables'.flatMap tableRows = tables.flatMap tableRows ++ it.rows.map (stored pa feed))
      (fun _ t => t.content = content ∧ Cause pa feed it may)
      (writeBatches pa feed dictionaryStrings n fuel it) ⟨content, some tables⟩ := by
  induction fuel generalizing it tables with
  | zero => exact absurd hfuel (Nat.not_lt_zero _)
  | succ fuel ih =>
    refine Ensures.through (fun r t => it.nextBatch n = .ok r ∧ t = ⟨content, some tables⟩)
      (alone_inMemory (fun r hr => ⟨hr, rfl⟩) fun e he =>
        ⟨rfl, Or.inl (raises_of_nextBatch he)⟩) ?_
    rintro ⟨batch, rest⟩ _ ⟨hbatch, rfl⟩
    obtain ⟨hrows, hraises, hlength, hend⟩ := nextBatch_spec hn hbatch
    dsimp only
    split
    · next hnil =>
      obtain ⟨hempty, hnone⟩ := hend hnil
      refine alone_pure ⟨hnone, fun row hrow => ?_, rfl, tables, rfl, ?_⟩
      · rw [hempty] at hrow
        cases hrow
      · rw [hempty, List.map_nil, List.append_nil]
    · next hne =>
      have hspec := rowsToTable_spec hpa (hlength.trans hsize) dictionaryStrings feed
      have hcause : Cause pa feed rest may → Cause pa feed it may := by
        rintro (hr | ⟨row, hrow, hs⟩ | hop)
        · exact Or.inl (hraises ▸ hr)
        · exact Or.inr (Or.inl ⟨row, hrows ▸ List.mem_append_right _ hrow, hs⟩)
        · exact Or.inr (Or.inr hop)
      refine Ensures.through
        (fun table t => rowsToTable pa feed batch dictionaryStrings = .ok table ∧
          t = ⟨content, some tables⟩)
        (alone_inMemory (fun table ht => ⟨ht, rfl⟩) fun e he => ?_) ?_
      · rw [he] at hspec
        obtain ⟨row, hrow, hs⟩ := hspec
        exact ⟨rfl, Or.inr (Or.inl ⟨row, hrows ▸ List.mem_append_left _ hrow, hs⟩)⟩
      rintro table _ ⟨htable, rfl⟩
      rw [htable] at hspec
      obtain ⟨hstorable, htableRows⟩ := hspec
      refine Ensures.through (fun _ t => t = ⟨content, some (tables ++ [table])⟩)
        (writing_fsOp rfl fun hmay => ⟨rfl, Or.inr (Or.inr ⟨_, hmay⟩)⟩) ?_
      rintro _ _ rfl
      have hless : rest.rows.length < fuel := by
        have hlen := congrArg List.length hrows
        rw [List.length_append] at hlen
        have hpos := List.length_pos_iff.mpr hne
        omega
      refine (ih hless _).mono ?_ fun e t ht => ⟨ht.1, hcause ht.2⟩
      rintro _ t ⟨hnone, hall, hcontent, tables', htemporary, hflat⟩
      refine ⟨hraises ▸ hnone, ?_, hcontent, tables', htemporary, ?_⟩
      · rw [hrows]
        exact List.forall_mem_append.mpr ⟨hstorable, hall⟩
      · rw [hflat, hrows, List.flatMap_append, List.flatMap_singleton, htableRows, List.map_append,
          List.append_assoc]

theorem writing_stable {P : Target → Prop} : (writing may).Stable P := by
  rintro s _ rfl h
  exact h

/-- The `try` block. -/
theorem writing_tables (hpa : pa.Preserves) (dictionaryStrings : Bool) {n : ℕ} (hn : 0 < n)
    (hsize : n ≤ 2 ^ 31) (content : Option ParquetFile) :
    Ensures (writing may) (fun _ => Installed pa feed it)
      (fun _ t => t.content = content ∧ Cause pa feed it may)
      (writeTables pa feed dictionaryStrings n it) ⟨content, none⟩ := by
  have hmay : ∀ {op}, may op → Cause pa feed it may := fun h => Or.inr (Or.inr ⟨_, h⟩)
  refine Ensures.through (fun _ t => t = ⟨content, some []⟩) ?_ ?_
  · refine alone_fsStep (fun r _ hr => ?_) (fun e he => by cases he) fun m hm => ?_
    · cases hr
      exact ⟨trivial, rfl⟩
    · rcases hm with hm | hm
      · cases hm
      · refine ⟨trivial, ?_, hmay hm.2⟩
        split <;> rfl
  rintro _ _ rfl
  refine Ensures.through (fun _ t => it.raises = none ∧ (∀ row ∈ it.rows, Storable pa feed row) ∧
    t.content = content ∧ ∃ tables, t.temporary = some tables ∧
      tables.flatMap tableRows = it.rows.map (stored pa feed)) ?_ ?_
  · refine Ensures.onError ?_ (fun e t ht => writing_fsOp ht fun _ => ht) fun e => writing_stable
    refine Ensures.through (fun _ t => t = ⟨content, some []⟩) ?_ ?_
    · unfold addMetadata
      split
      · exact writing_fsOp rfl fun h => ⟨rfl, hmay h⟩
      · exact alone_pure rfl
    · rintro _ _ rfl
      exact (writing_writeBatches hpa dictionaryStrings hn hsize (Nat.lt_succ_self _) content
        []).mono (fun _ t ht => by simpa using ht) fun _ t ht => ht
  rintro _ t ⟨hraises, hstorable, hcontent, tables, htemporary, htables⟩
  have hskip : ∀ op, Ensures (writing may) (fun _ u => u = t)
      (fun _ u => u.content = content ∧ Cause pa feed it may) (fsOp op id) t := fun op =>
    writing_fsOp rfl fun h => ⟨hcontent, hmay h⟩
  refine (hskip .close).bind fun _ u hu => ?_
  subst hu
  refine (hskip .sync).bind fun _ v hv => ?_
  subst hv
  refine alone_fsStep (fun r _ hr => ?_) (fun e he => ?_) fun m hm => ?_
  · rw [htemporary] at hr
    cases hr
    exact ⟨trivial, hraises, hstorable, by rw [fileOf, htables]⟩
  · rw [htemporary] at he
    cases he
  · rcases hm with hm | hm
    · cases hm
    · exact ⟨trivial, hcontent, hmay hm.2⟩

/-- `write_parquet_atomic` with either encoding, and batches of any size. -/
theorem writing_writeAtomic (hpa : pa.Preserves) (dictionaryStrings : Bool) {n : ℕ} (hn : 0 < n)
    (hsize : n ≤ 2 ^ 31) (content : Option ParquetFile) :
    Ensures (writing may) (fun _ => Installed pa feed it)
      (fun _ t => t = ⟨content, none⟩ ∧ Cause pa feed it may)
      (writeAtomic pa feed dictionaryStrings n it) ⟨content, none⟩ := by
  have hmay : ∀ {op}, may op → Cause pa feed it may := fun h => Or.inr (Or.inr ⟨_, h⟩)
  refine Ensures.through (fun _ t => t = ⟨content, none⟩)
    (writing_fsOp rfl fun h => ⟨rfl, hmay h⟩) ?_
  rintro _ _ rfl
  refine Ensures.through (fun _ => Installed pa feed it) ?_ ?_
  · -- whatever raises leaves the path alone, and the temporary file is removed
    refine (writing_tables hpa dictionaryStrings hn hsize content).onError (fun e t ht => ?_)
      fun e => writing_stable
    refine writing_unlinkTemporary ⟨?_, ht.2⟩
    rw [← ht.1]
  · rintro _ t ⟨hraises, hstorable, rfl⟩
    exact writing_unlinkTemporary ⟨hraises, hstorable, rfl⟩

end Writing

/-! ### The result -/

/-- **All or nothing**, whatever the iterator does and whichever operations fail: either the file
has the rows that were pulled, in their order, or the path is as it was; no temporary file is left.
It is the same file with either encoding of strings and batches of any size, and rows of matching
types are in it as they are. -/
theorem writeParquetAtomic_all_or_nothing (pa : Pyarrow) (hpa : pa.Preserves) (feed : Feed)
    (it : RowIterator) (content : Option ParquetFile) (may : WriteStep → Prop) :
    Ensures (writing may) (fun _ => Installed pa feed it)
        (fun _ t => t = ⟨content, none⟩ ∧ Cause pa feed it may)
        (writeParquetAtomic pa feed it) ⟨content, none⟩ ∧
      (∀ (dictionaryStrings : Bool) (n : ℕ), 0 < n → n ≤ 2 ^ 31 →
        Ensures (writing may) (fun _ => Installed pa feed it)
          (fun _ t => t = ⟨content, none⟩ ∧ Cause pa feed it may)
          (writeAtomic pa feed dictionaryStrings n it) ⟨content, none⟩) ∧
      ((∀ row ∈ it.rows, convertible feed row = true) →
        (∀ row ∈ it.rows, Storable pa feed row) ∧
          ⟨parquetColumns feed, it.rows.map (stored pa feed)⟩ =
            ParquetStore.rowsToTable feed it.rows) := by
  refine ⟨writing_writeAtomic hpa _ (by decide) (by decide) content,
    fun dictionaryStrings n hn hsize => writing_writeAtomic hpa dictionaryStrings hn hsize content,
    fun h => ⟨fun row hrow => (stored_eq_project hpa (h row hrow)).1, ?_⟩⟩
  rw [ParquetStore.rowsToTable]
  exact congrArg _ (List.map_congr_left fun row hrow => (stored_eq_project hpa (h row hrow)).2)

/-- `pyarrow` on values it accepts. -/
def samplePyarrow : Pyarrow where
  convert type v :=
    if type.accepts v then .ok v else .error ⟨.typeError, "Expected bytes, got another object"⟩

theorem preserves_sample : samplePyarrow.Preserves where
  matching type v h := if_pos h
  text v w h := by
    cases v <;> cases w <;> first | rfl | (cases h; rfl) | cases h

/-- Three alerts, two of which have the same header, and one has none. -/
def sampleRows : List Row :=
  [[("entity_id", .str "1"), ("header_text", .str "Lift")],
    [("entity_id", .str "2")],
    [("entity_id", .str "3"), ("header_text", .str "Lift")]]

/-- Two alerts share a header: the file has both. -/
theorem writeParquetAtomic_all_or_nothing_alerts :
    Ensures (writing fun _ => False) (fun _ => Installed samplePyarrow .alerts ⟨sampleRows, none⟩)
        (fun _ t => t = ⟨some ⟨[], []⟩, none⟩ ∧
          Cause samplePyarrow .alerts ⟨sampleRows, none⟩ fun _ => False)
        (writeParquetAtomic samplePyarrow .alerts ⟨sampleRows, none⟩) ⟨some ⟨[], []⟩, none⟩ ∧
      ⟨parquetColumns .alerts, sampleRows.map (stored samplePyarrow .alerts)⟩ =
        ParquetStore.rowsToTable .alerts sampleRows := by
  obtain ⟨hall, -, hstored⟩ := writeParquetAtomic_all_or_nothing samplePyarrow preserves_sample
    .alerts ⟨sampleRows, none⟩ (some ⟨[], []⟩) fun _ => False
  exact ⟨hall, (hstored (by decide +kernel)).2⟩

end BkkCollector.Storage.ParquetWrite
