import BkkCollector.Storage.RawScan

/-! # The exporter's reader of vehicle frames

`LatestVehicleFrame` reads the newest raw log of the vehicle positions up to its checkpoint. It
remembers how far it read and the last frame, and resumes there as long as it finds the same file.
It interprets headers by rules of its own: a timestamp is finite, a payload is neither empty nor
larger than two MiB, and only the last payload is decompressed. -/

namespace BkkCollector.PublicExporter.Source

open BkkCollector.Logic.Program BkkCollector.Python.Objects BkkCollector.Storage.AtomicIo
open BkkCollector.Storage.RawLog

/-- `MAX_FRAME_BYTES`. -/
def maxFrameBytes : ℕ := 2 * 1024 * 1024

/-- `MAX_PROTOBUF_BYTES`. -/
def maxProtobufBytes : ℕ := 8 * 1024 * 1024

/-- `math.isfinite`, on the bits of a float64: not all bits of the exponent are set. -/
def isFinite (timestamp : Timestamp) : Bool := timestamp.toNat / 2 ^ 52 % 2 ^ 11 != 2 ^ 11 - 1

/-- `GzipFile.read(size)` beside the rest of the `gzip` module: of a payload that decompresses, the
first `size` bytes. -/
structure GzipReader extends Gzip where
  read : ℕ → Bytes → Except PyError Bytes
  read_of_decompress : ∀ size b raw, decompress b = .ok raw → read size b = .ok (raw.take size)

/-! ### Frames behind a checkpoint -/

/-- `last_header`. -/
structure LastHeader where
  timestamp : Timestamp
  position : ℕ
  length : ℕ
  deriving DecidableEq

/-- The header loop of `read`, from position `tell` up to the end the checkpoint names. -/
def readHeaders (b : Bytes) (validEnd tell : ℕ) (lastHeader : Option LastHeader) :
    Except PyError (Option LastHeader) :=
  if tell < validEnd then
    let header := (b.drop tell).take headerSize
    if header.length ≠ headerSize then .error ⟨.valueError, "checkpoint splits a header"⟩
    else
      let timestamp := (unpackHeader header).1
      let length := (unpackHeader header).2
      if !isFinite timestamp || length == 0 || decide (length > maxFrameBytes) then
        .error ⟨.valueError, "invalid vehicle frame"⟩
      else if tell + headerSize + length > validEnd then
        .error ⟨.valueError, "checkpoint splits a frame"⟩
      else
        readHeaders b validEnd (tell + headerSize + length)
          (some ⟨timestamp, tell + headerSize, length⟩)
  else .ok lastHeader
termination_by validEnd - tell
decreasing_by
  simp only [headerSize]
  omega

/-- Reading and decompressing the frame behind the last header. -/
def readFrame (gz : GzipReader) (b : Bytes) (last : LastHeader) :
    Except PyError (Timestamp × Bytes) := do
  let compressed := (b.drop last.position).take last.length
  unless compressed.length = last.length do
    throw ⟨.valueError, "raw frame shortened during read"⟩
  let raw ← gz.read (maxProtobufBytes + 1) compressed
  unless raw.length ≤ maxProtobufBytes do
    throw ⟨.valueError, "vehicle protobuf exceeds size limit"⟩
  pure (last.timestamp, raw)

/-! ### The reader and the files it follows -/

/-- A daily raw log and what `os.fstat` says about the file. -/
structure DailyLog where
  files : LogFiles
  device : ℕ
  inode : ℕ

/-- The attributes of `LatestVehicleFrame`; a path is named by its date. -/
structure LatestVehicleFrame where
  identity : Option (ℕ × ℕ × ℕ) := none
  offset : ℕ := 0
  latest : Option (Timestamp × Bytes) := none
  deriving DecidableEq

/-- The raw logs of the vehicle positions by date, and a reader. -/
structure Export where
  days : List (ℕ × DailyLog)
  reader : LatestVehicleFrame := {}

/-- The file operations of `read`. -/
inductive ReadOp where
  | glob
  | readCheckpoint
  | fstat
  | readHeaders
  | readFrame
  deriving DecidableEq

/-- `max(candidates)`: the newest date up to `today` that has a raw log. -/
def newest (today : ℕ) (days : List (ℕ × DailyLog)) : Option ℕ :=
  ((days.filter fun e => e.2.files.log.isSome && decide (e.1 ≤ today)).map (·.1)).max?

/-- The open raw log of a date. -/
def onDay {α : Type} (date : ℕ) (e : Export) (f : DailyLog → Bytes → Except PyError α) :
    Except PyError α :=
  match e.days.lookup date with
  | none => .error ⟨.fileNotFoundError, ""⟩
  | some day =>
    match day.files.log with
    | none => .error ⟨.fileNotFoundError, ""⟩
    | some b => f day b

/-- `read_object` of the checkpoint of a date. A checkpoint of three entries stays below the size
limit; one that is missing or no JSON object raises. -/
def readCheckpoint (date : ℕ) (e : Export) : Except PyError Row :=
  match (e.days.lookup date).bind (·.files.checkpoint) with
  | none => .error ⟨.fileNotFoundError, ""⟩
  | some checkpoint => .ok checkpoint

/-- `end`, where the checkpoint has version 1 and a length of type `int` that is not negative. -/
def checkpointEnd (checkpoint : Row) : Option ℕ :=
  if (checkpoint.get "version").key = (Value.int 1).key then
    match checkpoint.get "valid_bytes" with
    | .int n => if n < 0 then none else some n.toNat
    | _ => none
  else none

/-- A reader starts again at another file, and where the checkpoint is behind it. -/
def LatestVehicleFrame.follow (identity : ℕ × ℕ × ℕ) (validEnd : ℕ) (r : LatestVehicleFrame) :
    LatestVehicleFrame :=
  if some identity ≠ r.identity ∨ validEnd < r.offset then ⟨some identity, 0, none⟩ else r

/-- `stat.st_size`, and `self.identity` of the file found. -/
def followFile (date validEnd : ℕ) (e : Export) : Except PyError (Export × Unit) :=
  onDay date e fun day b =>
    if validEnd > b.length then .error ⟨.valueError, "checkpoint exceeds raw file"⟩
    else .ok ({ e with reader := e.reader.follow (date, day.device, day.inode) validEnd }, ())

/-- The frame behind the last header becomes the latest one; only then the reader advances. -/
def keepFrame (gz : GzipReader) (date validEnd : ℕ) (last : Option LastHeader) (e : Export) :
    Except PyError (Export × Option (Timestamp × Bytes)) :=
  match last with
  | none => .ok ({ e with reader := { e.reader with offset := validEnd } }, e.reader.latest)
  | some last =>
    onDay date e fun _ b =>
      (readFrame gz b last).map fun frame =>
        ({ e with reader := { e.reader with offset := validEnd, latest := some frame } },
          some frame)

/-- `LatestVehicleFrame.read`. -/
def LatestVehicleFrame.read (gz : GzipReader) (today : ℕ) :
    FsProg Export ReadOp (Timestamp × Bytes) := do
  let candidate ← fsRead .glob fun e => .ok (newest today e.days)
  match candidate with
  | none => throw ⟨.fileNotFoundError, "no vehicle observation"⟩
  | some date =>
    let checkpoint ← fsRead .readCheckpoint (readCheckpoint date)
    match checkpointEnd checkpoint with
    | none => throw ⟨.valueError, "invalid raw checkpoint"⟩
    | some validEnd =>
      fsStep .fstat (followFile date validEnd) fun _ e => e
      let last ← fsRead .readHeaders fun e =>
        onDay date e fun _ b => readHeaders b validEnd e.reader.offset none
      let latest ← fsStep .readFrame (keepFrame gz date validEnd last) fun _ e => e
      match latest with
      | none => throw ⟨.valueError, "no committed vehicle frame"⟩
      | some frame => pure frame

end BkkCollector.PublicExporter.Source
