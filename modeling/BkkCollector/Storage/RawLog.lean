import Mathlib.Data.List.Induction
import Mathlib.Data.Nat.Digits.Defs
import BkkCollector.Storage.AtomicIo

/-! # The raw log

One file per feed and UTC date. A record is a header, the poll's timestamp as a big-endian float64
and the length of the compressed payload as a big-endian uint32, followed by the payload. Records
are only appended; beside the log lie a checkpoint, which names a length up to which the log was
once synced, and the tails that repairs detached. -/

namespace BkkCollector.Storage.RawLog

open BkkCollector.Logic.Program BkkCollector.Python.Objects BkkCollector.Storage.AtomicIo

/-- A byte string. -/
abbrev Bytes := List UInt8

/-- The bits of a float64. -/
abbrev Timestamp := UInt64

/-! ### Headers -/

/-- `n` as `w` big-endian bytes. -/
def bigEndian : ℕ → ℕ → Bytes
  | 0, _ => []
  | w + 1, n => bigEndian w (n / 256) ++ [UInt8.ofNat n]

/-- The number behind big-endian bytes. -/
def ofBigEndian (b : Bytes) : ℕ := b.foldl (fun n x => 256 * n + x.toNat) 0

/-- `_HEADER.size`. -/
def headerSize : ℕ := 12

/-- `_HEADER.pack(timestamp, length)`. -/
def packHeader (timestamp : Timestamp) (length : ℕ) : Bytes :=
  bigEndian 8 timestamp.toNat ++ bigEndian 4 length

/-- `_HEADER.unpack(header)`. -/
def unpackHeader (header : Bytes) : Timestamp × ℕ :=
  (UInt64.ofNat (ofBigEndian (header.take 8)), ofBigEndian (header.drop 8))

/-- `MAX_COMPRESSED_RECORD_BYTES`. -/
def maxCompressedRecordBytes : ℕ := 256 * 1024 * 1024

@[simp] theorem length_bigEndian (w n : ℕ) : (bigEndian w n).length = w := by
  induction w generalizing n with
  | zero => rfl
  | succ w ih => simp [bigEndian, ih]

theorem ofBigEndian_bigEndian {w n : ℕ} (h : n < 256 ^ w) : ofBigEndian (bigEndian w n) = n := by
  induction w generalizing n with
  | zero => simp only [pow_zero, Nat.lt_one_iff] at h; subst h; rfl
  | succ w ih =>
    have hq : n / 256 < 256 ^ w := by rw [pow_succ] at h; omega
    have hih : List.foldl (fun n (x : UInt8) => 256 * n + x.toNat) 0 (bigEndian w (n / 256)) =
        n / 256 := ih hq
    simp only [bigEndian, ofBigEndian, List.foldl_append, List.foldl_cons, List.foldl_nil, hih,
      UInt8.toNat_ofNat']
    omega

@[simp] theorem length_packHeader (timestamp : Timestamp) (length : ℕ) :
    (packHeader timestamp length).length = headerSize := by
  simp [packHeader, headerSize]

theorem unpackHeader_packHeader (timestamp : Timestamp) {length : ℕ}
    (h : length ≤ maxCompressedRecordBytes) :
    unpackHeader (packHeader timestamp length) = (timestamp, length) := by
  have h1 : (packHeader timestamp length).take 8 = bigEndian 8 timestamp.toNat :=
    List.take_left' (length_bigEndian 8 _)
  have h2 : (packHeader timestamp length).drop 8 = bigEndian 4 length :=
    List.drop_left' (length_bigEndian 8 _)
  have h3 : timestamp.toNat < 256 ^ 8 := timestamp.toNat_lt
  have h4 : length < 256 ^ 4 := by unfold maxCompressedRecordBytes at h; omega
  rw [unpackHeader, h1, h2, ofBigEndian_bigEndian h3, ofBigEndian_bigEndian h4,
    UInt64.ofNat_toNat]

theorem ofBigEndian_lt (b : Bytes) : ofBigEndian b < 256 ^ b.length := by
  induction b using List.reverseRecOn with
  | nil => simp [ofBigEndian]
  | append_singleton b x ih =>
    have hx : x.toNat < 256 := x.toNat_lt
    unfold ofBigEndian at ih ⊢
    rw [List.foldl_append, List.foldl_cons, List.foldl_nil, List.length_append, List.length_singleton,
      pow_succ]
    omega

theorem bigEndian_ofBigEndian (b : Bytes) : bigEndian b.length (ofBigEndian b) = b := by
  induction b using List.reverseRecOn with
  | nil => rfl
  | append_singleton b x ih =>
    have hx : x.toNat < 256 := x.toNat_lt
    have hn : ofBigEndian (b ++ [x]) = 256 * ofBigEndian b + x.toNat := by
      unfold ofBigEndian
      rw [List.foldl_append, List.foldl_cons, List.foldl_nil]
    have hdiv : (256 * ofBigEndian b + x.toNat) / 256 = ofBigEndian b := by omega
    have hlast : UInt8.ofNat (256 * ofBigEndian b + x.toNat) = x := by
      apply UInt8.toNat_inj.mp
      rw [UInt8.toNat_ofNat']
      omega
    rw [hn, List.length_append, List.length_singleton, bigEndian, hdiv, ih, hlast]

/-- A header is the packing of what it announces. -/
theorem packHeader_unpackHeader {header : Bytes} (h : header.length = headerSize) :
    packHeader (unpackHeader header).1 (unpackHeader header).2 = header := by
  unfold headerSize at h
  have h8 : (header.take 8).length = 8 := by rw [List.length_take]; omega
  have h4 : (header.drop 8).length = 4 := by rw [List.length_drop]; omega
  have hlt : ofBigEndian (header.take 8) < 2 ^ 64 := by
    have := ofBigEndian_lt (header.take 8)
    rw [h8] at this
    omega
  have hts : bigEndian 8 (ofBigEndian (header.take 8)) = header.take 8 := by
    have := bigEndian_ofBigEndian (header.take 8)
    rwa [h8] at this
  have hlen : bigEndian 4 (ofBigEndian (header.drop 8)) = header.drop 8 := by
    have := bigEndian_ofBigEndian (header.drop 8)
    rwa [h4] at this
  rw [packHeader, unpackHeader, UInt64.toNat_ofNat_of_lt' hlt, hts, hlen, List.take_append_drop]

/-! ### The compressor -/

/-- The `gzip` module. `compress` writes the current time into its header; on an invalid payload
`decompress` raises `BadGzipFile`, `EOFError` or `zlib.error`. -/
structure Gzip where
  compress : UInt32 → Bytes → Bytes
  decompress : Bytes → Except PyError Bytes
  decompress_compress : ∀ mtime b, decompress (compress mtime b) = .ok b
  error_type : ∀ b e, decompress b = .error e →
    e.type = .badGzipFile ∨ e.type = .eofError ∨ e.type = .zlibError

/-- `except (OSError, EOFError)`. -/
def undecodable (e : PyError) : Bool := e.type.isOSError || e.type == .eofError

/-- A record as `append_record` writes it. -/
def record (timestamp : Timestamp) (compressed : Bytes) : Bytes :=
  packHeader timestamp compressed.length ++ compressed

/-! ### Reading -/

/-- What a generator did: the values it yielded and, if it raised, its exception. -/
structure Generated (α : Type) where
  yielded : List α
  raised : Option PyError := none
  deriving DecidableEq

/-- `iter_records`, from where the file is being read. -/
def iterRecords (gz : Gzip) (rest : Bytes) : Generated (Timestamp × Bytes) :=
  let header := rest.take headerSize
  if header.length < headerSize then ⟨[], none⟩
  else
    let length := (unpackHeader header).2
    if length > maxCompressedRecordBytes then ⟨[], none⟩
    else
      let payload := (rest.drop headerSize).take length
      if payload.length < length then ⟨[], none⟩
      else
        let tail := iterRecords gz (rest.drop (headerSize + length))
        match gz.decompress payload with
        | .ok raw => { tail with yielded := ((unpackHeader header).1, raw) :: tail.yielded }
        | .error e => if undecodable e then tail else ⟨[], some e⟩
termination_by rest.length
decreasing_by
  rename_i h _ _
  simp only [header, headerSize, List.length_take, List.length_drop] at h ⊢
  omega

/-- `RawLogScan`. -/
structure RawLogScan where
  completeRecords : ℕ
  validBytes : ℕ
  fileBytes : ℕ
  clean : Bool
  deriving DecidableEq

/-- The loop of `scan_raw_log` and `_scan_raw_log_from` at file position `tell`: `validate` says
whether payloads are decompressed, `advancing` whether the loop checks that it advanced. -/
def scanLoop (gz : Gzip) (validate advancing : Bool) (fileSize count validEnd tell : ℕ)
    (rest : Bytes) : Except PyError RawLogScan :=
  let header := rest.take headerSize
  if header.isEmpty then .ok ⟨count, validEnd, fileSize, validEnd == fileSize⟩
  else if header.length ≠ headerSize then .ok ⟨count, validEnd, fileSize, false⟩
  else
    let length := (unpackHeader header).2
    if length > maxCompressedRecordBytes then .ok ⟨count, validEnd, fileSize, false⟩
    else
      let payload := (rest.drop headerSize).take length
      if payload.length ≠ length then .ok ⟨count, validEnd, fileSize, false⟩
      else
        match if validate then gz.decompress payload else .ok [] with
        | .error e =>
          if undecodable e then .ok ⟨count, validEnd, fileSize, false⟩ else .error e
        | .ok _ =>
          let tell' := tell + headerSize + length
          if advancing && tell' ≤ tell then
            .error ⟨.runtimeError, "raw log scanner did not advance"⟩
          else
            scanLoop gz validate advancing fileSize (count + 1) tell' tell'
              (rest.drop (headerSize + length))
termination_by rest.length
decreasing_by
  rename_i h _ _ _ _
  simp only [header, headerSize, List.isEmpty_iff, List.take_eq_nil_iff] at h
  have hne : rest ≠ [] := by tauto
  have := List.length_pos_iff.mpr hne
  simp only [headerSize, List.length_drop]
  omega

/-- `scan_raw_log`, of a file with these bytes. -/
def scanRawLog (gz : Gzip) (bytes : Bytes) (validateGzip : Bool := true) :
    Except PyError RawLogScan :=
  scanLoop gz validateGzip true bytes.length 0 0 0 bytes

/-- `_scan_raw_log_from`. -/
def scanRawLogFrom (gz : Gzip) (bytes : Bytes) (offset : ℕ) : Except PyError RawLogScan :=
  scanLoop gz true false bytes.length 0 offset offset (bytes.drop offset)

/-! ### Files and file operations -/

/-- The files of one raw log: the log, its checkpoint as a parsed JSON object, and the tails that
repairs detached, by the stamp in their names. -/
structure LogFiles where
  log : Option Bytes := none
  checkpoint : Option Row := none
  sidecars : List (String × Bytes) := []
  deriving DecidableEq

/-- The file operations on a raw log. -/
inductive RawOp where
  | exists
  | mkdir
  | open
  | write
  | fsync
  | stat
  | readCheckpoint
  | scan
  | openSidecar
  | copyTail
  | fsyncSidecar
  | fsyncDirectory
  | truncate
  | checkpoint (op : WriteOp)
  deriving DecidableEq

variable {α : Type}

/-- An operation on an open log. -/
def onLog (op : RawOp) (f : Bytes → Except PyError α) : FsProg LogFiles RawOp α :=
  fsRead op fun s =>
    match s.log with
    | some bytes => f bytes
    | none => .error ⟨.fileNotFoundError, ""⟩

/-- `{"version": 1, "valid_bytes": …, "updated_at_timestamp": …}`; the last entry is never read
back, and is kept as the bits of the float. -/
def checkpointRow (validBytes : ℕ) (updatedAt : Option Timestamp) : Row :=
  [("version", .int 1), ("valid_bytes", .int validBytes),
    ("updated_at_timestamp", (updatedAt.map fun t => Value.int t.toNat).getD .null)]

/-- Writing the checkpoint. -/
def writeCheckpoint (validBytes : ℕ) (updatedAt : Option Timestamp) :
    FsProg LogFiles RawOp Unit :=
  atomicWriteJson .checkpoint fun s =>
    { s with checkpoint := some (checkpointRow validBytes updatedAt) }

/-- `append_record`. A failing write leaves any prefix of the record in the log, all of it
included. -/
def appendRecord (gz : Gzip) (mtime : UInt32) (timestamp : Timestamp) (rawBytes : Bytes)
    (fsync : Bool) : FsProg LogFiles RawOp Unit := do
  let compressed := gz.compress mtime rawBytes
  if compressed.length > maxCompressedRecordBytes then
    throw ⟨.valueError,
      s!"compressed raw record is unexpectedly large: {compressed.length} bytes"⟩
  else
    fsOp .mkdir id
    let _existed ← fsRead .exists fun s => .ok s.log.isSome
    fsOp .open fun s => { s with log := some (s.log.getD []) }
    fsStep .write
      (fun s => .ok ({ s with log := s.log.map (· ++ record timestamp compressed) }, ()))
      fun n s => { s with log := s.log.map (· ++ (record timestamp compressed).take n) }
    if fsync then
      fsOp .fsync id
      let size ← onLog .stat fun bytes => .ok bytes.length
      writeCheckpoint size (some timestamp)

/-- `checkpoint.get("valid_bytes") if checkpoint.get("version") == 1 else None`, where it is an
`int`. -/
def checkpointBytes (checkpoint : Row) : Option ℤ :=
  if (checkpoint.get "version").key = (Value.int 1).key then (checkpoint.get "valid_bytes").asInt
  else none

/-- The scan of `repair_truncated_tail`: from the checkpoint where it names a length within the
log, from the start otherwise; nothing where the checkpoint covers the whole log. -/
def scanTail (gz : Gzip) (checkpoint : Row) : FsProg LogFiles RawOp (Option RawLogScan) := do
  let size ← onLog .stat fun bytes => .ok bytes.length
  match checkpointBytes checkpoint with
  | none => some <$> onLog .scan (scanRawLog gz ·)
  | some n =>
    if 0 ≤ n ∧ n ≤ size then
      if n = size then pure none
      else some <$> onLog .scan (scanRawLogFrom gz · n.toNat)
    else some <$> onLog .scan (scanRawLog gz ·)

/-- Copying the tail into a new sidecar, and cutting it off once the copy is durable. -/
def detachTail (stamp : String) (validBytes : ℕ) : FsProg LogFiles RawOp Unit := do
  fsStep .openSidecar
    (fun s =>
      if (s.sidecars.lookup stamp).isSome then .error ⟨.fileExistsError, ""⟩
      else .ok ({ s with sidecars := (stamp, []) :: s.sidecars }, ()))
    fun _ s => s
  let copy (s : LogFiles) (tail : Bytes) : LogFiles :=
    { s with sidecars := s.sidecars.map fun e => if e.1 = stamp then (stamp, tail) else e }
  fsStep .copyTail
    (fun s => .ok (copy s ((s.log.getD []).drop validBytes), ()))
    fun n s => copy s (((s.log.getD []).drop validBytes).take n)
  fsOp .fsyncSidecar id
  fsOp .fsyncDirectory id
  fsOp .truncate fun s => { s with log := s.log.map (·.take validBytes) }
  fsOp .fsync id

/-- `repair_truncated_tail`: the stamp of the sidecar, where it made one. -/
def repairTruncatedTail (gz : Gzip) (stamp : String) : FsProg LogFiles RawOp (Option String) := do
  let present ← fsRead .exists fun s => .ok s.log.isSome
  if !present then
    pure none
  else
    let checkpoint ← readJson .readCheckpoint [] fun s => s.checkpoint.getD []
    match ← scanTail gz checkpoint with
    | none => pure none
    | some scan =>
      if scan.clean then
        writeCheckpoint scan.validBytes none
        pure none
      else
        detachTail stamp scan.validBytes
        writeCheckpoint scan.validBytes none
        pure (some stamp)

end BkkCollector.Storage.RawLog
