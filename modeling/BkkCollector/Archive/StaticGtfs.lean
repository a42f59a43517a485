import Mathlib.Data.List.Sort
import BkkCollector.Archive.Remote
import BkkCollector.Storage.Jsonl

/-! # The static GTFS store

A daily check downloads the static feed, keeps its archive under its digest, and appends an event to
`history.jsonl`; archives of an older layout are indexed by appending events for them. The store is
what lies below `static_gtfs`: the history as bytes, the parsed `state.json`, the archives by path,
and the archive that is being downloaded. -/

namespace BkkCollector.Archive.StaticGtfs

open BkkCollector.Logic.Program BkkCollector.Python.Objects BkkCollector.Python.Documents
open BkkCollector.Python.Text BkkCollector.Storage.AtomicIo BkkCollector.Storage.Jsonl
open BkkCollector.Archive.DataDir (Path pathParts isAbsolute pathText startsWith endsWith
  removePrefix removeSuffix)
open BkkCollector.Archive.Remote (assign)

/-- `STATIC_GTFS_URL`. -/
def staticGtfsUrl : String := "https://go.bkk.hu/api/static/v1/public-gtfs/budapest_gtfs.zip"

/-- What `validate_gtfs_zip` finds in an archive. -/
structure ZipDetails where
  fileCount : ℕ
  feedVersion : Option String
  deriving DecidableEq

/-- The library calls of the store. -/
structure StaticTools where
  json : JsonModule
  validateGtfsZip : Bytes → Except PyError ZipDetails
  sha256 : Bytes → String
  /-- A date `YYYY-MM-DD` as the ISO text of its first instant, or nothing if it is none. -/
  isoOfDate : String → Option String
  /-- `datetime.fromtimestamp(..).isoformat()`. -/
  isoOfTimestamp : ℚ → String

/-- A kept archive. -/
structure StaticArchive where
  content : Bytes
  mtime : ℚ := 0

/-- **The store**; `appended` is a record of the events whose `append_jsonl` returned. -/
structure StaticStore where
  history : Option Bytes := none
  appended : List Doc := []
  state : Option Doc := none
  temporary : Option Bytes := none
  archives : List (Path × StaticArchive) := []

/-- The operations of the store. -/
inductive StaticOp where
  | mkdir
  | get
  | openTemporary
  | writeTemporary
  | fsyncTemporary
  | validate
  | sha256
  | stat
  | readState
  | readHistory
  | exists
  | replace
  | unlinkTemporary
  | glob
  | append (op : AppendOp)
  | appended (event : Doc)
  | writeState (op : WriteOp)

variable {σ ω α : Type}

/-- A computation without operations. -/
def lift : Except PyError α → FsProg σ ω α
  | .ok a => .pure a
  | .error e => .throw e

/-- `finally`. -/
def withCleanup (p : FsProg σ ω α) (cleanup : FsProg σ ω Unit) : FsProg σ ω α :=
  (p.onError cleanup).bind fun a => cleanup.bind fun _ => .pure a

/-- A program of the store. -/
abbrev StaticProg (α : Type) := FsProg StaticStore StaticOp α

/-! ### The history -/

/-- `StaticGtfsStore.history`. -/
def history (json : JsonModule) (file : Option Bytes) : Except PyError (List Doc) :=
  match file with
  | none => .ok []
  | some b => (iterJsonl json b).map fun lines => (lines.map (·.2)).filter Doc.truthy

/-- `StaticGtfsStore.history`, as a step. -/
def readHistory (t : StaticTools) : StaticProg (List Doc) :=
  fsRead .readHistory fun s => history t.json s.history

/-- The event of one archive. -/
def staticEvent (checkedAt digest : String) (size : ℕ) (versionPath : Path) (changed : Bool)
    (source : String) (details : ZipDetails) : Doc :=
  .dict [("version", .int 1), ("checked_at", .str checkedAt), ("sha256", .str digest),
    ("size", .int size), ("version_path", .str (pathText versionPath)), ("changed", .bool changed),
    ("source", .str source), ("file_count", .int details.fileCount),
    ("feed_version", (details.feedVersion.map Doc.str).getD .null)]

/-- `append_jsonl(self.history_path, event)`. -/
def appendHistory (t : StaticTools) (event : Doc) : StaticProg Unit := do
  appendJsonl t.json StaticOp.append StaticStore.history
    (fun f s => { s with history := f s.history }) event
  .act (.appended event) (fun _ s => { s with appended := s.appended ++ [event] })
    fun _ _ => .pure ()

/-- `archive_path`. -/
def archivePath (event : Doc) : Except PyError Path := do
  match (← event.get "version_path" .null).asStr with
  | none => throw ⟨.valueError, "static GTFS history event lacks version_path"⟩
  | some value =>
    if value = "" then throw ⟨.valueError, "static GTFS history event lacks version_path"⟩
    else if isAbsolute value || (pathParts value).contains ".." then
      throw ⟨.valueError, "unsafe static GTFS version path: " ++ value⟩
    else pure (pathParts value)

/-! ### Indexing archives of the older layout -/

/-- `{event.get("version_path") for event in ..}`: a list or an object cannot be in a set. -/
def knownPaths (events : List Doc) : Except PyError (List Doc) :=
  events.mapM fun event => do
    match ← event.get "version_path" .null with
    | .list _ => throw ⟨.typeError, "unhashable type: 'list'"⟩
    | .dict _ => throw ⟨.typeError, "unhashable type: 'dict'"⟩
    | path => pure path

/-- `sorted(self.root.glob("budapest_gtfs_*.zip"))`. -/
def legacyNames (s : StaticStore) : List String :=
  (s.archives.filterMap fun e =>
    match e.1 with
    | [name] => if startsWith "budapest_gtfs_" name && endsWith ".zip" name then some name else none
    | _ => none).insertionSort (· ≤ ·)

/-- A step on a kept archive. -/
def onArchive (op : StaticOp) (path : Path) (f : StaticArchive → Except PyError α) : StaticProg α :=
  fsRead op fun s =>
    match s.archives.lookup path with
    | some a => f a
    | none => .error ⟨.fileNotFoundError, ""⟩

/-- `validate_gtfs_zip` and `sha256_file` of a kept archive. -/
def examineArchive (t : StaticTools) (name : String) : StaticProg (ZipDetails × String) := do
  let details ← onArchive .validate [name] fun a => t.validateGtfsZip a.content
  let digest ← onArchive .sha256 [name] fun a => .ok (t.sha256 a.content)
  pure (details, digest)

/-- The time an archive of the older layout was checked: the date in its name, or its `mtime`. -/
def legacyCheckedAt (t : StaticTools) (name : String) : StaticProg String :=
  match t.isoOfDate (removePrefix "budapest_gtfs_" (removeSuffix ".zip" name)) with
  | some checked => .pure checked
  | none => onArchive .stat [name] fun a => .ok (t.isoOfTimestamp a.mtime)

/-- The event of an archive of the older layout. -/
def indexArchive (t : StaticTools) (name : String) (details : ZipDetails) (digest : String) :
    StaticProg Unit := do
  let checkedAt ← legacyCheckedAt t name
  let size ← onArchive .stat [name] fun a => .ok a.content.length
  appendHistory t
    (staticEvent checkedAt digest size [name] true "legacy_archive_migration" details)

/-- The loop of `migrate_legacy_archives`: an archive that is no GTFS archive is left alone. -/
def indexArchives (t : StaticTools) : List String → List Doc → ℕ → StaticProg ℕ
  | [], _, added => .pure added
  | name :: names, known, added =>
    if known.any (·.eqStr name) then indexArchives t names known added
    else
      (examineArchive t name).attempt.bind fun
        | .error _ => indexArchives t names known added
        | .ok (details, digest) =>
          (indexArchive t name details digest).bind fun _ =>
            indexArchives t names (.str name :: known) (added + 1)

/-- `a < b`, of texts and of numbers. -/
def lessThan (a b : Doc) : Except PyError Bool :=
  match a.asStr, b.asStr with
  | some s, some t => .ok (decide (s < t))
  | _, _ =>
    match a.number, b.number with
    | some p, some q => .ok (decide (p < q))
    | _, _ => .error ⟨.typeError, "'>' not supported between instances"⟩

/-- `max(events, key=lambda event: event.get("checked_at", ""))`: the first of the largest. -/
def latestEvent : List Doc → Except PyError Doc
  | [] => .error ⟨.valueError, "max() arg is an empty sequence"⟩
  | event :: events =>
    events.foldlM (fun best next => do
      let key ← best.get "checked_at" (.str "")
      let nextKey ← next.get "checked_at" (.str "")
      if ← lessThan key nextKey then pure next else pure best) event

/-- `state.update(..)`. -/
def updateState (state : Doc) (entries : List (String × Doc)) : Except PyError Doc :=
  match state with
  | .dict members => .ok (.dict (entries.foldl (fun d e => assign e.1 e.2 d) members))
  | _ => .error ⟨.attributeError, "object has no attribute 'update'"⟩

/-- `read_json(self.state_path, {})`. -/
def readState : StaticProg Doc := readJson .readState (.dict []) fun s => s.state.getD (.dict [])

/-- `atomic_write_json(self.state_path, state)`. -/
def writeState (state : Doc) : StaticProg Unit :=
  atomicWriteJson .writeState fun s => { s with state := some state }

/-- The newest event of the history becomes the state. -/
def stateFromHistory (t : StaticTools) : StaticProg Unit := do
  let events ← readHistory t
  let latest ← lift (latestEvent events)
  let state ← readState
  let digest ← lift (latest.get "sha256" .null)
  let versionPath ← lift (latest.get "version_path" .null)
  let feedVersion ← lift (latest.get "feed_version" .null)
  let state ← lift (updateState state [("version", .int 1), ("latest_sha256", digest),
    ("latest_version_path", versionPath), ("latest_feed_version", feedVersion)])
  writeState state

/-- `migrate_legacy_archives`. -/
def migrateLegacyArchives (t : StaticTools) : StaticProg ℕ := do
  let events ← readHistory t
  let known ← lift (knownPaths events)
  let names ← fsRead .glob fun s => .ok (legacyNames s)
  let added ← indexArchives t names known 0
  if added = 0 then pure 0
  else
    stateFromHistory t
    pure added

/-! ### The check -/

/-- The response, written to the temporary file. -/
def download (response : Except PyError Bytes) : StaticProg Unit := do
  let body ← fsRead .get fun _ => response
  fsOp .openTemporary fun s => { s with temporary := some [] }
  fsStep .writeTemporary (fun s => .ok ({ s with temporary := some body }, ()))
    fun n s => { s with temporary := some (body.take n) }
  fsOp .fsyncTemporary id

/-- A step on the temporary file. -/
def onTemporary (op : StaticOp) (f : Bytes → Except PyError α) : StaticProg α :=
  fsRead op fun s =>
    match s.temporary with
    | some b => f b
    | none => .error ⟨.fileNotFoundError, ""⟩

/-- The last event of the same digest. -/
def findMatching (digest : String) : List Doc → Except PyError (Option Doc)
  | [] => .ok none
  | event :: events => do
    if (← event.get "sha256" .null).eqStr digest then pure (some event)
    else findMatching digest events

/-- Where the archive belongs: where its digest already is, or below `versions`. -/
def destinationOf (digest : String) (matching : Option Doc) : Except PyError Path :=
  match matching with
  | some event => archivePath event
  | none => .ok ["versions", digest ++ ".zip"]

/-- The temporary file becomes the archive, unless there is one. -/
def keepArchive (destination : Path) : StaticProg Unit := do
  let present ← fsRead .exists fun s => .ok (s.archives.lookup destination).isSome
  if present then
    unlink .unlinkTemporary (·.temporary.isSome) fun s => { s with temporary := none }
  else
    fsOp .replace fun s =>
      { s with
        archives := (destination, ⟨s.temporary.getD [], 0⟩) :: s.archives
        temporary := none }

/-- `check` behind the download. -/
def recordCheck (t : StaticTools) (nowTs : ℚ) : StaticProg Doc := do
  let details ← onTemporary .validate t.validateGtfsZip
  let digest ← onTemporary .sha256 fun b => .ok (t.sha256 b)
  let size ← onTemporary .stat fun b => .ok b.length
  let state ← readState
  let previousHash ← lift (state.get "latest_sha256" .null)
  let events ← readHistory t
  let matching ← lift (findMatching digest events.reverse)
  let destination ← lift (destinationOf digest matching)
  keepArchive destination
  let event := staticEvent (t.isoOfTimestamp nowTs) digest size destination
    (!previousHash.eqStr digest) staticGtfsUrl details
  appendHistory t event
  writeState (.dict [("version", .int 1), ("last_attempt_timestamp", .float (some nowTs)),
    ("last_attempt_at", .str (t.isoOfTimestamp nowTs)), ("last_success_timestamp", .float (some nowTs)),
    ("last_success_at", .str (t.isoOfTimestamp nowTs)), ("latest_sha256", .str digest),
    ("latest_version_path", .str (pathText destination)),
    ("latest_feed_version", (details.feedVersion.map Doc.str).getD .null), ("last_error", .null)])
  pure event

/-- `check`. -/
def check (t : StaticTools) (response : Except PyError Bytes) (nowTs : ℚ) : StaticProg Doc := do
  fsOp .mkdir id
  withCleanup (do download response; recordCheck t nowTs)
    (ignoreMissing
      (unlink .unlinkTemporary (·.temporary.isSome) fun s => { s with temporary := none }))

end BkkCollector.Archive.StaticGtfs
