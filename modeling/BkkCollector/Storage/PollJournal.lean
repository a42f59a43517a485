import BkkCollector.Storage.Jsonl

/-! # The poll journal

One file of JSON lines per feed and UTC date, with a checkpoint beside it that names a length up to
which it was once synced. Before a line is appended the tail of the file is repaired: a last line
that is no JSON object goes into a sidecar, a last line that lacks its separator gets it.

Of every call that appends, `calls` records the event, the bytes it wrote and whether it returned;
`found` and `syncFailed` record what the last repair found and whether its directory sync failed. -/

namespace BkkCollector.Storage.PollJournal

open BkkCollector.Logic.Program BkkCollector.Logic.Lines BkkCollector.Python.Objects
open BkkCollector.Python.Documents BkkCollector.Python.Text BkkCollector.Storage.AtomicIo
open BkkCollector.Storage.Jsonl

/-- The byte of a newline. -/
abbrev newline : UInt8 := 10

/-- `json.loads` of bytes, beside the rest of the `json` module. No proper prefix of a serialised
object parses as an object. -/
structure JsonBytes extends JsonModule where
  dumps_ne_nil : ∀ d text, dumps d = .ok text → text ≠ []
  loadsBytes : Bytes → Option Doc
  loadsBytes_line : ∀ d text, dumps d = .ok text →
    loadsBytes (encodeUtf8 (text ++ ['\n'])) = some (sortKeys d)
  loadsBytes_text : ∀ d text, dumps d = .ok text →
    loadsBytes (encodeUtf8 text) = some (sortKeys d)
  loadsBytes_prefix : ∀ members text, dumps (.dict members) = .ok text →
    ∀ p, p <+: encodeUtf8 text → p ≠ encodeUtf8 text →
    ∀ d, loadsBytes p = some d → d.isDict = false

/-! ### Files -/

/-- A call of `append_poll_jsonl` that got as far as its append. -/
structure PollCall where
  event : List (String × Doc)
  written : Bytes := []
  returned : Bool := false
  deriving DecidableEq

/-- The files of one journal, and the record of what happened to it, the newest call first. -/
structure JournalFiles where
  journal : Option Bytes := none
  checkpoint : Option Row := none
  sidecars : List Bytes := []
  calls : List PollCall := []
  found : Option Bytes × Option Row := (none, none)
  syncFailed : Bool := false
  deriving DecidableEq

/-- The operations on a journal. -/
inductive JournalOp where
  | exists
  | stat
  | readCheckpoint
  | lastLine
  | readLines
  | sidecar (op : WriteOp)
  | fsyncDirectory
  | truncate
  | writeSeparator
  | fsync
  | begin
  | append (op : AppendOp)
  | returned
  | checkpoint (op : WriteOp)
  deriving DecidableEq

/-- A program on the files of a journal. -/
abbrev JournalProg (α : Type) := FsProg JournalFiles JournalOp α

/-- An operation on the open journal. -/
def onJournal {α : Type} (op : JournalOp) (f : Bytes → Except PyError α) : JournalProg α :=
  fsRead op fun s =>
    match s.journal with
    | some b => f b
    | none => .error ⟨.fileNotFoundError, ""⟩

/-- `{"version": 1, "valid_bytes": …}`. -/
def journalCheckpoint (validBytes : ℕ) : Row := [("version", .int 1), ("valid_bytes", .int validBytes)]

/-- Writing the checkpoint. -/
def writeCheckpoint (validBytes : ℕ) : JournalProg Unit :=
  atomicWriteJson .checkpoint fun s => { s with checkpoint := some (journalCheckpoint validBytes) }

/-! ### The last line -/

/-- `block.rfind(b"\n")`. -/
def rfind : Bytes → Option ℕ
  | [] => none
  | a :: block =>
    match rfind block with
    | some k => some (k + 1)
    | none => if a = newline then some 0 else none

/-- The loop of `_last_line_start`: block by block backwards from `stop`. -/
def searchBack (blockSize : ℕ) (hpos : 0 < blockSize) (b : Bytes) (stop : ℕ) : ℕ :=
  if stop = 0 then 0
  else
    let start := stop - blockSize
    match rfind ((b.drop start).take (stop - start)) with
    | some separator => start + separator + 1
    | none => searchBack blockSize hpos b start
termination_by stop
decreasing_by omega

/-- `_last_line_start`: the final separator is skipped while looking for the preceding one. -/
def lastLineStart (b : Bytes) (size : ℕ) : ℕ :=
  searchBack 4096 (by decide) b
    (if size ≠ 0 ∧ b[size - 1]? = some newline then size - 1 else size)

/-! ### Repair -/

/-- What `readline` returns until the end. -/
def byteLines (b : Bytes) : List Bytes :=
  (split newline b).1 ++ if (split newline b).2 = [] then [] else [(split newline b).2]

/-- The exception of a repair that would have to remove an interior line. -/
def interiorCorruption : PyError :=
  ⟨.valueError, "journal has interior corruption; refusing destructive repair"⟩

/-- The loop of `repair_jsonl_tail` over the lines from position `tell` on: a last line that is no
JSON object, with its position, or else whether the last line lacks its separator. -/
def checkLines (json : JsonBytes) (size : ℕ) : ℕ → Bool → List Bytes →
    Except PyError (Option (ℕ × Bytes) × Bool)
  | _, addSeparator, [] => .ok (none, addSeparator)
  | tell, addSeparator, line :: lines =>
    if (json.loadsBytes line).any Doc.isDict then
      checkLines json size (tell + line.length) (line.getLast? != some newline) lines
    else if tell + line.length ≠ size then .error interiorCorruption
    else .ok (some (tell, line), addSeparator)

/-- Copying a line into a new sidecar, whose directory entry has to be durable. -/
def saveTail (line : Bytes) : JournalProg Unit := do
  atomicWriteBytes .sidecar id id fun s => { s with sidecars := line :: s.sidecars }
  fsStep .fsyncDirectory (fun s => .ok (s, ())) fun _ s => { s with syncFailed := true }

/-- Cutting the journal at `size`. -/
def truncate (size : ℕ) : JournalProg Unit :=
  fsOp .truncate fun s => { s with journal := s.journal.map (·.take size) }

/-- `repair_jsonl_tail` from the position where it starts to check. -/
def repairFrom (json : JsonBytes) (size start : ℕ) : JournalProg (Option Bytes) := do
  match ← onJournal .readLines fun b => checkLines json size start false (byteLines (b.drop start)) with
  | (some (lineStart, line), _) =>
    saveTail line
    truncate lineStart
    fsOp .fsync id
    writeCheckpoint lineStart
    pure (some line)
  | (none, true) =>
    truncate size
    fsStep .writeSeparator
      (fun s => .ok ({ s with journal := s.journal.map (· ++ [newline]) }, ()))
      fun n s => { s with journal := s.journal.map (· ++ [newline].take n) }
    fsOp .fsync id
    writeCheckpoint (size + 1)
    pure none
  | (none, false) =>
    writeCheckpoint size
    pure none

/-- `valid_bytes`, where the checkpoint has version 1 and it is an `int`. -/
def checkpointSize (checkpoint : Row) : Option ℤ :=
  if (checkpoint.get "version").key = (Value.int 1).key then
    match checkpoint.get "valid_bytes" with
    | .int n => some n
    | _ => none
  else none

/-- The checkpoint, where it names a length within the journal. -/
def provenSize (checkpoint : Row) (size : ℕ) : Option ℕ :=
  match checkpointSize checkpoint with
  | some n => if 0 ≤ n ∧ n ≤ size then some n.toNat else none
  | none => none

/-- Is there a journal; a new repair begins. -/
def beginRepair : JournalProg Bool :=
  let fresh (s : JournalFiles) : JournalFiles :=
    { s with found := (s.journal, s.checkpoint), syncFailed := false }
  fsStep .exists (fun s => .ok (fresh s, s.journal.isSome)) fun _ s => fresh s

/-- `repair_jsonl_tail`: the line it detached, if any. -/
def repairJsonlTail (json : JsonBytes) : JournalProg (Option Bytes) := do
  let present ← beginRepair
  if !present then pure none
  else
    let size ← onJournal .stat fun b => .ok b.length
    let checkpoint ← readJson .readCheckpoint [] fun s => s.checkpoint.getD []
    match provenSize checkpoint size with
    | some valid => if valid = size then pure none else repairFrom json size valid
    | none =>
      let start ← onJournal .lastLine fun b => .ok (lastLineStart b size)
      repairFrom json size start

/-! ### Appending -/

/-- A change of the journal, with the bytes it adds to those the newest call wrote. -/
def modifyJournal (f : Option Bytes → Option Bytes) (s : JournalFiles) : JournalFiles :=
  { s with
    journal := f s.journal
    calls :=
      match s.calls with
      | [] => []
      | call :: calls =>
        { call with
          written := call.written ++ ((f s.journal).getD []).drop (s.journal.getD []).length } ::
          calls }

/-- A step that only records something. -/
def note (op : JournalOp) (f : JournalFiles → JournalFiles) : JournalProg Unit :=
  .act op (fun _ s => f s) fun _ _ => .pure ()

/-- The newest call returned. -/
def markReturned (s : JournalFiles) : JournalFiles :=
  match s.calls with
  | [] => s
  | call :: calls => { s with calls := { call with returned := true } :: calls }

/-- `append_poll_jsonl`. -/
def appendPollJsonl (json : JsonBytes) (event : List (String × Doc)) : JournalProg Unit := do
  let _recovery ← repairJsonlTail json
  note .begin fun s => { s with calls := { event := event } :: s.calls }
  appendJsonl json.toJsonModule JournalOp.append JournalFiles.journal modifyJournal (.dict event)
  let size ← onJournal .stat fun b => .ok b.length
  writeCheckpoint size
  note .returned markReturned

end BkkCollector.Storage.PollJournal
