import BkkCollector.Archive.Remote

/-! # Receipts, manifests and pending dates

What the backup reads in the data directory: which dates have a verified receipt, which are still to
be backed up, and whether a manifest and the files it lists can be trusted. -/

namespace BkkCollector.Archive.Backup

open BkkCollector.Config BkkCollector.Python.Objects BkkCollector.Python.Documents
open BkkCollector.Python.Collections
open BkkCollector.Archive.DataDir BkkCollector.Archive.Remote

variable {B : Type}

/-! ### Paths -/

/-- The directory entry of a date. -/
def dateDir (date : String) : String := "date=" ++ date

/-- `metadata/polls/<feed>/date=<date>/polls.jsonl`. -/
def pollJournalPath (feed : Feed) (date : String) : Path :=
  ["metadata", "polls", feed.name, dateDir date, "polls.jsonl"]

/-- `metadata/manifests/date=<date>.json`. -/
def manifestPath (date : String) : Path := ["metadata", "manifests", dateDir date ++ ".json"]

/-- `backup_receipts/date=<date>.json`. -/
def receiptPath (date : String) : Path := ["backup_receipts", dateDir date ++ ".json"]

/-- `metadata/legacy_inventory.json`. -/
def legacyInventoryPath : Path := ["metadata", "legacy_inventory.json"]

/-! ### Dates -/

/-- The trees `discover_completed_dates` looks into. -/
def dateRoots : List Path := [["raw"], ["parquet"], ["metadata", "polls"]]

/-- The dates below a tree: `root.glob("*/date=*")`. -/
def datesBelow (d : DataDir B) (root : Path) : List String :=
  (iterdir d root).flatMap fun feed =>
    ((iterdir d (root ++ [feed])).filter (startsWith "date=")).map (removePrefix "date=")

/-- `discover_completed_dates`; `isDate` says what `strptime` accepts. -/
def discoverCompletedDates (isDate : String → Bool) (today : String) (d : DataDir B) :
    List String :=
  sortedSet (((dateRoots.filter (existsAt d)).flatMap (datesBelow d)).filter fun date =>
    isDate date && decide (date < today))

/-- The condition of `confirmed_dates` on a receipt. -/
def confirms (repoId date : String) (receipt : Doc) : Bool :=
  match receipt with
  | .dict members =>
    let field := fun key => (members.lookup key).getD .null
    (field "version").eqInt 2 && (field "remote_verified").isTrue &&
      (field "repo_id").eqStr repoId && (field "date").eqStr date &&
      match (field "artifacts").asList with
      | some artifacts => !artifacts.isEmpty
      | none => false
  | _ => false

/-- The dates of the files `date=*.json` among the receipts. -/
def receiptDates (d : DataDir B) : List String :=
  ((iterdir d ["backup_receipts"]).filter fun name =>
    startsWith "date=" name && endsWith ".json" name).map fun name =>
      removeSuffix ".json" (removePrefix "date=" name)

/-- `confirmed_dates`. -/
def confirmedDates (C : Contents B) (repoId : String) (d : DataDir B) : List String :=
  if existsAt d ["backup_receipts"] then
    (receiptDates d).filter fun date =>
      confirms repoId date (readJson C d (receiptPath date) (.dict []))
  else []

/-- The date of an entry of the legacy inventory, if it is handled there. -/
def handledDate (entry : Doc) : Option String :=
  match entry with
  | .dict members =>
    let field := fun key => (members.lookup key).getD .null
    if (field "inventory_complete").isTrue && (field "legacy_handled").isTrue &&
        !(field "classification").eqStr "v2_complete" then
      (field "date").asStr
    else none
  | _ => none

/-- The dates the legacy inventory takes off the work list. -/
def handledLegacy (C : Contents B) (d : DataDir B) : Except PyError (List String) := do
  let inventory := readJson C d legacyInventoryPath (.dict [])
  let version ← inventory.get "inventory_version" .null
  let complete ← inventory.get "inventory_complete" .null
  if version.eqInt 1 && complete.isTrue then do
    let dates ← (← inventory.get "dates" (.list [])).items
    pure (dates.filterMap handledDate)
  else pure []

/-- `pending_dates`. -/
def pendingDates (C : Contents B) (isDate : String → Bool) (today repoId : String)
    (d : DataDir B) : Except PyError (List String) := do
  let handled ← handledLegacy C d
  pure ((discoverCompletedDates isDate today d).filter fun date =>
    decide (date ∉ confirmedDates C repoId d) && decide (date ∉ handled))

/-! ### Manifests -/

/-- The paths of the artifacts of a manifest. -/
def artifactPaths (artifacts : List Doc) : List String :=
  artifacts.filterMap fun
    | .dict members => ((members.lookup "path").getD .null).asStr
    | _ => none

/-- `presence.get("records", 0) < presence["journal_confirmed_observations"]`, for numbers and
texts; other values are not ordered. -/
def lessThan (a b : Doc) : Except PyError Bool :=
  match a.number, b.number with
  | some p, some q => .ok (decide (p < q))
  | _, _ =>
    match a, b with
    | .str s, .str t => .ok (decide (s < t))
    | .float none, _ => .ok false
    | _, .float none => .ok false
    | _, _ => .error ⟨.typeError, "'<' not supported"⟩

/-- The statistics of a feed `_validate_manifest` asks for: at least one of each. -/
def requiredCounts : List String :=
  ["successful_http_polls", "successful_parse_polls", "raw_snapshots", "parquet_files"]

/-- `int(stats.get(key, 0))`. -/
def count (parse : String → Option ℤ) (stats : Doc) (key : String) : Except PyError ℤ := do
  (← stats.get key (.int 0)).toInt parse

/-- An exception of the manifest checks. -/
def invalid (message : String) : PyError := ⟨.valueError, message⟩

/-- The counts of a feed. -/
def checkCounts (parse : String → Option ℤ) (feed : Feed) (stats : Doc) :
    List String → Except PyError Unit
  | [] => pure ()
  | key :: keys => do
    if (← count parse stats key) < 1 then
      throw (invalid ("daily manifest has incomplete " ++ feed.name ++ " evidence"))
    else checkCounts parse feed stats keys

/-- The evidence of a presence log, where the journal promises one. -/
def checkPresence (date : String) (paths : List String) (stats : Doc) : Except PyError Unit := do
  let presence ← stats.get "presence" (.dict [])
  if (← presence.get "journal_confirmed_observations" (.int 0)).truthy then do
    let presence ← stats.item "presence"
    if (← lessThan (← presence.get "records" (.int 0))
          (← presence.item "journal_confirmed_observations")) ||
        decide ("metadata/tripupdates_presence/date=" ++ date ++ "/presence.jsonlog" ∉ paths) then
      throw (invalid "daily manifest lacks promised TripUpdates presence evidence")

/-- What `_validate_manifest` asks of one feed. -/
def checkFeed (parse : String → Option ℤ) (date : String) (feeds : Doc) (paths : List String)
    (feed : Feed) : Except PyError Unit := do
  let stats ← feeds.get feed.name .null
  unless stats.isDict do throw (invalid ("daily manifest lacks " ++ feed.name ++ " statistics"))
  checkCounts parse feed stats requiredCounts
  if (← count parse stats "pending_spool_segments") ≠ 0 then
    throw (invalid ("daily manifest has incomplete " ++ feed.name ++ " evidence"))
  unless (← stats.get "raw_log_clean" .null).isTrue do
    throw (invalid ("daily manifest has incomplete " ++ feed.name ++ " evidence"))
  let stem := feed.name ++ "/" ++ dateDir date ++ "/"
  unless decide ("raw/" ++ stem ++ feed.name ++ ".rawlog" ∈ paths) &&
      decide ("metadata/polls/" ++ stem ++ "polls.jsonl" ∈ paths) do
    throw (invalid ("daily manifest lacks required " ++ feed.name ++ " raw/poll artifacts"))
  unless paths.any (fun path =>
      startsWith ("parquet/" ++ stem) path && endsWith ".parquet" path) do
    throw (invalid ("daily manifest lacks required " ++ feed.name ++ " Parquet artifact"))
  if feed = .tripupdates then checkPresence date paths stats

/-- The archive a static version names, if it is among the artifacts. -/
def listsVersion (paths : List String) (version : Doc) : Except PyError Bool := do
  match (← version.get "version_path" .null).asStr with
  | some versionPath => pure (decide ("static_gtfs/" ++ versionPath ∈ paths))
  | none => pure false

/-- The segments of the static timeline. -/
def checkTimeline (paths : List String) : List Doc → Except PyError Unit
  | [] => pure ()
  | segment :: segments => do
    let listed ← if segment.isDict then listsVersion paths segment else pure false
    if listed then checkTimeline paths segments
    else throw (invalid "daily manifest lacks an archive from its static GTFS timeline")

/-- The three feeds. -/
def checkFeeds (parse : String → Option ℤ) (date : String) (feeds : Doc) (paths : List String) :
    List Feed → Except PyError Unit
  | [] => pure ()
  | feed :: rest => do
    checkFeed parse date feeds paths feed
    checkFeeds parse date feeds paths rest

/-- `_validate_manifest`. -/
def validateManifest (parse : String → Option ℤ) (date : String) (manifest : Doc) :
    Except PyError Unit := do
  unless (← manifest.get "manifest_version" .null).eqInt 1 &&
      (← manifest.get "date" .null).eqStr date do
    throw (invalid "daily manifest version/date is invalid")
  let feeds ← manifest.get "feeds" .null
  let static ← manifest.get "static_gtfs" .null
  match (← manifest.get "artifacts" .null).asList,
      (← manifest.get "static_gtfs_timeline" .null).asList with
  | some artifacts, some timeline => do
    unless feeds.isDict && static.isDict && !timeline.isEmpty do
      throw (invalid "daily manifest is missing feed, artifact, or static GTFS evidence")
    let paths := artifactPaths artifacts
    checkFeeds parse date feeds paths feedNames
    unless ← listsVersion paths static do
      throw (invalid "daily manifest lacks its applicable static GTFS archive")
    checkTimeline paths timeline
  | _, _ => throw (invalid "daily manifest is missing feed, artifact, or static GTFS evidence")

/-! ### Artifacts -/

/-- `str(path.relative_to(data_dir))` of the manifest. -/
def manifestName (date : String) : String := pathText (manifestPath date)

/-- The artifact of the manifest itself. -/
def manifestArtifact (C : Contents B) (d : DataDir B) (date : String) : Except PyError Doc := do
  let f ← stat d (manifestPath date)
  let sha256 ← sha256File C d (manifestPath date)
  pure (.dict [("path", .str (manifestName date)), ("kind", .str "daily_manifest"),
    ("size", .int (C.size f.content)), ("sha256", .str sha256)])

/-- Artifacts with their paths. -/
def namedArtifacts : List Doc → Except PyError (List Artifact)
  | [] => pure []
  | artifact :: artifacts => do
    let path ← artifactPath artifact
    let rest ← namedArtifacts artifacts
    pure ((path, artifact) :: rest)

/-- `_local_artifacts`: by path, in order. -/
def localArtifacts (C : Contents B) (d : DataDir B) (date : String) (manifest : Doc) :
    Except PyError (List Artifact) := do
  let artifacts ← (← manifest.item "artifacts").items
  let own ← manifestArtifact C d date
  let named ← namedArtifacts (artifacts ++ [own])
  pure ((dictOf named).insertionSort fun a b => a.1 ≤ b.1)

/-- The check of one artifact in `_validate_local`. -/
def validateArtifact (C : Contents B) (d : DataDir B) (verifyHashes : Bool) (artifact : Artifact) :
    Except PyError Unit := do
  if isAbsolute artifact.1 || decide (".." ∈ pathParts artifact.1) then
    throw ⟨.valueError, "unsafe backup artifact path: " ++ artifact.1⟩
  let path ← safePath d artifact.1
  if isSymlink d path then
    throw ⟨.valueError, "refusing symlinked backup artifact: " ++ artifact.1⟩
  match fileAt d path with
  | none => throw ⟨.fileNotFoundError, "required backup artifact disappeared: " ++ artifact.1⟩
  | some f => do
    unless (← artifact.2.item "size").eqInt (C.size f.content) do
      throw ⟨.osError, "required backup artifact size changed: " ++ artifact.1⟩
    if verifyHashes then do
      let digest ← sha256File C d path
      unless (← artifact.2.item "sha256").eqStr digest do
        throw ⟨.osError, "required backup artifact checksum changed: " ++ artifact.1⟩

/-- `_validate_local`. -/
def validateLocal (C : Contents B) (d : DataDir B) (verifyHashes : Bool) :
    List Artifact → Except PyError Unit
  | [] => pure ()
  | artifact :: artifacts => do
    validateArtifact C d verifyHashes artifact
    validateLocal C d verifyHashes artifacts

end BkkCollector.Archive.Backup
